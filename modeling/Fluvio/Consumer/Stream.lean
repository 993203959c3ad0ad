import Fluvio.Spu.StreamFetch
import Fluvio.Replication.HighWatermark
import Fluvio.Producer.Partition

/-!
A consumer's stream of one partition with no SmartModule (`fluvio-spu/src/services/public/stream_fetch.rs`,
`fluvio-spu-schema/src/fetch/response.rs` and `fluvio/src/consumer/mod.rs`).

With no SmartModule, `send_back_records` sends the file slice `read_records` gives, cut at the
consumer's `max_bytes` wherever that falls, and then waits for the consumer. The consumer decodes the
slice as a `RecordSet<RawRecords>`, reads each batch's records with `memory_records`, which keeps what
it could decode when the bytes run out, and acknowledges `next_offset_for_fetch`: one past the last
batch, as the batch's header counts its records. The loop of `process` sends again from an
acknowledged offset behind the log, or from the consumer's offset when the leader's moves past it.

* `StreamFetchHandler.next_toLoop` — the SmartModule handler steps as `StreamLoop.next` at its
  `send_back_records`: `process` is one loop, whatever it sends.
* `ConsumerStream.run_consumed` — along every run, what the consumer has read is never taken back.
* `ConsumerStream.leaderOffsetUpdate_cut` — for a log built by appends and a consumer at the start of
  one of its batches: when `max_bytes` ends inside that batch's raw records, the next leader offset
  update sends the batch cut there; the consumer reads the cut batch's records and acknowledges the
  end of the whole batch.
* `twoRecords_consumed_cut` — a batch of two records read from offset 0 with `max_bytes` of 70: the
  consumer acknowledges offset 2 having read offset 0 alone, and offset 1 never reaches it.
-/

namespace Fluvio.Replication

/-- `Isolation`: a read up to the log end offset (the default), or up to the high watermark. -/
inductive Isolation
  | readUncommitted
  | readCommitted
deriving DecidableEq, Repr, Inhabited

/-- `OffsetInfo::isolation`: where a read under the isolation ends. -/
def OffsetInfo.isolation (self : OffsetInfo) : Isolation → Int64
  | .readCommitted => self.hw
  | .readUncommitted => self.leo

end Fluvio.Replication

namespace Fluvio.Protocol

/-- `RecordSet::last_offset`: the offset after the last batch, as its header counts its records. -/
def RecordSet.lastOffset {R : Type} (rs : RecordSet R) : Option Int64 :=
  rs.batches.getLast?.map Batch.computedLastOffset

/-- `Batch::into_consumer_records_iter`: each record with its offset, the batch's base offset plus
its index. -/
def Batch.intoConsumerRecords (b : Batch MemoryRecords) : List (Int64 × Record RecordData) :=
  b.records.mapIdx fun relative record => (b.baseOffset + Int64.ofNat relative, record)

end Fluvio.Protocol

namespace Fluvio.Spu

open Protocol Storage
open Fluvio.Replication

/-! ### The loop of `process` -/

/-- The loop of `StreamFetchHandler::process`, whatever `send_back_records` sends: the last offset
read from the partition, the consumer's offset when the handler knows it, and the responses sent. -/
structure StreamLoop (α : Type) where
  lastPartitionOffset : Int64
  lastKnownConsumerOffset : Option Int64
  sent : List α
deriving DecidableEq, Repr

section Loop

variable {α : Type} (send : Int64 → Option (Option α × Int64 × Bool))

/-- The loop after a `send_back_records` that returned: the response joins those sent, the offset
becomes the last read, and the consumer's offset is forgotten when it must answer. -/
def StreamLoop.afterSend (h : StreamLoop α) (response : Option α) (offset : Int64) (wait : Bool) :
    StreamLoop α :=
  { lastPartitionOffset := offset
    lastKnownConsumerOffset := if wait then none else some offset
    sent := h.sent ++ response.toList }

/-- `send_back_records` from the loop, which gives the response sent, if any, with the offset and
the consumer-wait flag; `none` when it fails, which ends the loop. -/
def StreamLoop.sendBack (h : StreamLoop α) (offset : Int64) : Option (StreamLoop α) :=
  match send offset with
  | some (response, offset, wait) => some (h.afterSend response offset wait)
  | none => none

/-- `process` up to its loop: the first `send_back_records` from the starting offset. -/
def StreamLoop.start (startingOffset : Int64) : Option (StreamLoop α) :=
  (⟨startingOffset, none, []⟩ : StreamLoop α).sendBack send startingOffset

/-- One turn of the loop of `process`. `none` when the loop ends. -/
def StreamLoop.next (h : StreamLoop α) : Event → Option (StreamLoop α)
  | .consumerOffsetUpdate offset =>
    if offset = initOffset then some h
    else if offset = topicDeleted then none
    -- a consumer that is caught up needs nothing
    else if h.lastPartitionOffset ≤ offset then some { h with lastKnownConsumerOffset := some offset }
    else h.sendBack send offset
  | .partitionOffsetUpdate offset =>
    match h.lastKnownConsumerOffset with
    | none => some { h with lastPartitionOffset := offset }
    | some consumerOffset =>
      if offset ≤ consumerOffset then some { h with lastPartitionOffset := offset }
      else h.sendBack send consumerOffset

end Loop

/-! ### The SmartModule handler is the loop -/

section SmartModule

variable (read : PartitionReader) (chain : SmartModuleChain) (maxBytes : Nat)

/-- `send_back_records` with a SmartModule chain, as the loop takes it. -/
def smartModuleSend (offset : Int64) : Option (Option ProcessedResponse × Int64 × Bool) :=
  match sendBackRecords read chain maxBytes offset with
  | some (.ok result) => some result
  | _ => none

/-- The SmartModule handler as a `StreamLoop`. -/
def StreamFetchHandler.toLoop (h : StreamFetchHandler) : StreamLoop ProcessedResponse :=
  ⟨h.lastPartitionOffset, h.lastKnownConsumerOffset, h.sent⟩

theorem StreamFetchHandler.sendBack_toLoop (h : StreamFetchHandler) (offset : Int64) :
    (h.sendBack read chain maxBytes offset).map StreamFetchHandler.toLoop =
      h.toLoop.sendBack (smartModuleSend read chain maxBytes) offset := by
  unfold StreamFetchHandler.sendBack StreamLoop.sendBack smartModuleSend
  cases hsend : sendBackRecords read chain maxBytes offset with
  | none => rfl
  | some result =>
    cases result with
    | error err => rfl
    | ok result => rfl

/-- **`process` is one loop**: the SmartModule handler steps as `StreamLoop.next` at its
`send_back_records`. -/
theorem StreamFetchHandler.next_toLoop (h : StreamFetchHandler) (e : Event) :
    (h.next read chain maxBytes e).map StreamFetchHandler.toLoop =
      h.toLoop.next (smartModuleSend read chain maxBytes) e := by
  cases e with
  | consumerOffsetUpdate offset =>
    dsimp only [StreamFetchHandler.next, StreamLoop.next, StreamFetchHandler.toLoop]
    split_ifs
    · rfl
    · rfl
    · rfl
    · exact StreamFetchHandler.sendBack_toLoop read chain maxBytes h offset
  | partitionOffsetUpdate offset =>
    dsimp only [StreamFetchHandler.next, StreamLoop.next, StreamFetchHandler.toLoop]
    cases h.lastKnownConsumerOffset with
    | none => rfl
    | some consumerOffset =>
      dsimp only
      split_ifs
      · rfl
      · exact StreamFetchHandler.sendBack_toLoop read chain maxBytes h consumerOffset

end SmartModule

/-! ### The response without a SmartModule -/

/-- `FetchablePartitionResponse` as the consumer reads it: its error code, `next_filter_offset`, and
the records. -/
structure FetchablePartitionResponse (R : Type) where
  errorCode : Protocol.ErrorCode
  nextFilterOffset : Int64
  records : R
deriving DecidableEq, Repr

/-- `FilePartitionResponse`: the records as a slice of the log file. -/
abbrev FilePartitionResponse := FetchablePartitionResponse FileSlice

/-- What the consumer receives of a `FilePartitionResponse`: its fields, and the records as the bytes
`file_encode` sends for them. -/
def FilePartitionResponse.fileEncode (response : FilePartitionResponse) (file : List UInt8) :
    FetchablePartitionResponse (List UInt8) :=
  ⟨response.errorCode, response.nextFilterOffset, fileRecordSetEncode response.records file⟩

@[simp] theorem FilePartitionResponse.records_fileEncode (response : FilePartitionResponse) (file : List UInt8) :
    (response.fileEncode file).records = fileRecordSetEncode response.records file := rfl

/-- `FetchablePartitionResponse::next_offset_for_fetch`: the SmartModule's next offset when it set
one, and otherwise the offset after the last batch. -/
def FetchablePartitionResponse.nextOffsetForFetch {R : Type} (self : FetchablePartitionResponse (RecordSet R)) :
    Option Int64 :=
  if 0 < self.nextFilterOffset then some self.nextFilterOffset else self.records.lastOffset

/-- `read_partition_slice`: a committed read stops at the high watermark. -/
def SourceReplica.readPartitionSlice (r : SourceReplica) (offset : Int64) (maxLen : UInt32) :
    Isolation → Except ReadRecordsError ReplicaSlice
  | .readCommitted => r.readRecords offset (some r.hw) maxLen
  | .readUncommitted => r.readRecords offset none maxLen

/-- `send_back_records` with no SmartModule: the response sent, as the consumer receives it, with the
read end under the isolation and the consumer-wait flag; the error of `read_records`. -/
def sendBackFileRecords (leader : SourceReplica) (isolation : Isolation) (maxFetchBytes : UInt32)
    (startingOffset : Int64) :
    Except ReadRecordsError (Option (FetchablePartitionResponse (List UInt8)) × Int64 × Bool) :=
  match leader.readPartitionSlice startingOffset maxFetchBytes isolation with
  | .error err => .error err
  | .ok slice =>
    let response : FilePartitionResponse := ⟨.none, 0, slice.fileSlice.getD ⟨0, 0⟩⟩
    -- nothing could be read: the next read starts at the same offset
    if response.records.len = 0 then .ok (none, startingOffset, false)
    else .ok (some (response.fileEncode leader.bytes), (⟨slice.hw, slice.leo⟩ : OffsetInfo).isolation isolation, true)

/-! ### The consumer -/

/-- The response as the consumer decodes it, its records a `RecordSet<RawRecords>`; `none` when they
do not decode, and the stream yields the error instead. -/
def FetchablePartitionResponse.decode (m : FetchablePartitionResponse (List UInt8)) :
    Option (FetchablePartitionResponse (RecordSet RawRecords)) :=
  match (RecordSet.decode : Decode (RecordSet RawRecords)) m.records with
  | .ok records _ => some ⟨m.errorCode, m.nextFilterOffset, records⟩
  | .error _ _ => none

/-- The offset the consumer acknowledges for a response: `next_offset_for_fetch` of the decoded one. -/
def FetchablePartitionResponse.acknowledged (m : FetchablePartitionResponse (List UInt8)) : Option Int64 :=
  m.decode.bind FetchablePartitionResponse.nextOffsetForFetch

theorem FetchablePartitionResponse.acknowledged_of_decode {m : FetchablePartitionResponse (List UInt8)}
    {response : FetchablePartitionResponse (RecordSet RawRecords)} (h : m.decode = some response) :
    m.acknowledged = response.nextOffsetForFetch := by
  rw [FetchablePartitionResponse.acknowledged, h, Option.bind_some]

/-- A file response whose slice decodes to a record set reaches the consumer as that record set. -/
theorem FilePartitionResponse.decode_fileEncode {response : FilePartitionResponse} {file : List UInt8}
    {records : RecordSet RawRecords} {rest : List UInt8}
    (h : (RecordSet.decode : Decode (RecordSet RawRecords)) (fileRecordSetEncode response.records file) =
      .ok records rest) :
    (response.fileEncode file).decode = some ⟨response.errorCode, response.nextFilterOffset, records⟩ := by
  rw [FetchablePartitionResponse.decode, FilePartitionResponse.records_fileEncode, h]
  rfl

section Consumer

variable [Compressor]

/-- The records a consumer reads from one batch: the batch `try_into` gives through `memory_records`,
each record with its offset; none when the conversion fails, whose error the stream yields instead. -/
def batchRecords (raw : Batch RawRecords) : List (Int64 × Record RecordData) :=
  match raw.ofRaw with
  | some (.ok batch) => batch.intoConsumerRecords
  | _ => []

/-- The records a consumer reads from a response: those of each batch, in order. -/
def FetchablePartitionResponse.consumerRecords (m : FetchablePartitionResponse (List UInt8)) :
    List (Int64 × Record RecordData) :=
  match m.decode with
  | some response => response.records.batches.flatMap batchRecords
  | none => []

theorem FetchablePartitionResponse.consumerRecords_of_decode {m : FetchablePartitionResponse (List UInt8)}
    {response : FetchablePartitionResponse (RecordSet RawRecords)} (h : m.decode = some response) :
    m.consumerRecords = response.records.batches.flatMap batchRecords := by
  unfold FetchablePartitionResponse.consumerRecords
  rw [h]

/-- The records of a log file in offset order: those a consumer reads from the whole file as one
slice. -/
def logRecords (file : List UInt8) : List (Int64 × Record RecordData) :=
  (FilePartitionResponse.fileEncode ⟨.none, 0, ⟨0, file.length⟩⟩ file).consumerRecords

end Consumer

/-! ### The stream -/

/-- The consumer's settings: its isolation, and its `max_bytes`, which is the SPU's `max_fetch_bytes`
when there is no SmartModule. -/
structure ConsumerConfig where
  isolation : Isolation
  maxBytes : UInt32

/-- A consumer's stream of one partition: the leader's replica, and the SPU's loop with the responses
it sent, which reach the consumer in order. -/
structure ConsumerStream where
  leader : SourceReplica
  handler : StreamLoop (FetchablePartitionResponse (List UInt8))

/-- `send_back_records` of the stream, as the loop takes it: an error of `read_records` ends the
loop. -/
def ConsumerStream.send (c : ConsumerConfig) (leader : SourceReplica) (offset : Int64) :
    Option (Option (FetchablePartitionResponse (List UInt8)) × Int64 × Bool) :=
  (sendBackFileRecords leader c.isolation c.maxBytes offset).toOption

/-- The stream from the offset the consumer resolved: `process` up to its loop. -/
def ConsumerStream.init (c : ConsumerConfig) (leader : SourceReplica) (offset : Int64) :
    Option ConsumerStream :=
  (StreamLoop.start (ConsumerStream.send c leader) offset).map fun h => ⟨leader, h⟩

/-- What can happen next: a producer writes a batch to the leader, the leader's offset listener
fires, or the consumer's acknowledgement of a response reaches the loop. An acknowledgement is taken
by its response's index, so it may arrive late or again. -/
inductive StreamEvent
  | produce (batch : Batch RawRecords)
  | leaderOffsetUpdate
  | consumerOffsetUpdate (i : Nat)
deriving DecidableEq, Repr

section Stream

variable [Crc32c]

/-- One step of the stream; `none` when the event cannot happen or the loop ends. The leader is its
partition's only in-sync replica, so its high watermark follows each write, and its offset listener
gives the end of a read under the consumer's isolation. -/
def ConsumerStream.next (c : ConsumerConfig) (s : ConsumerStream) : StreamEvent → Option ConsumerStream
  | .produce batch => (leaderWriteBatch s.leader 1 batch).map fun leader => { s with leader := leader }
  | .leaderOffsetUpdate =>
    (s.handler.next (ConsumerStream.send c s.leader)
      (.partitionOffsetUpdate (s.leader.asOffset.isolation c.isolation))).map fun h => { s with handler := h }
  | .consumerOffsetUpdate i =>
    match s.handler.sent[i]?.bind FetchablePartitionResponse.acknowledged with
    | none => none
    | some offset =>
      (s.handler.next (ConsumerStream.send c s.leader) (.consumerOffsetUpdate offset)).map
        fun h => { s with handler := h }

end Stream

/-- The records the consumer has read: those of every response sent, in order. -/
def ConsumerStream.consumed [Compressor] (s : ConsumerStream) : List (Int64 × Record RecordData) :=
  s.handler.sent.flatMap FetchablePartitionResponse.consumerRecords

/-! ### Runs -/

section Runs

variable {α : Type} {send : Int64 → Option (Option α × Int64 × Bool)} {h h' : StreamLoop α}

theorem StreamLoop.sent_sendBack {offset : Int64} (hsend : h.sendBack send offset = some h') :
    h.sent <+: h'.sent := by
  unfold StreamLoop.sendBack at hsend
  split at hsend
  · cases hsend
    exact List.prefix_append _ _
  · cases hsend

/-- **The loop only adds to the responses it sent**, at their end. -/
theorem StreamLoop.sent_next {e : Event} (hnext : h.next send e = some h') : h.sent <+: h'.sent := by
  cases e with
  | consumerOffsetUpdate offset =>
    simp only [StreamLoop.next] at hnext
    split_ifs at hnext
    · cases hnext
      exact List.prefix_refl _
    · cases hnext
      exact List.prefix_refl _
    · exact StreamLoop.sent_sendBack hnext
  | partitionOffsetUpdate offset =>
    simp only [StreamLoop.next] at hnext
    split at hnext
    · cases hnext
      exact List.prefix_refl _
    · split_ifs at hnext
      · cases hnext
        exact List.prefix_refl _
      · exact StreamLoop.sent_sendBack hnext

end Runs

section StreamRuns

variable [Crc32c] {c : ConsumerConfig} {s s' : ConsumerStream}

theorem ConsumerStream.sent_next {e : StreamEvent} (hnext : s.next c e = some s') :
    s.handler.sent <+: s'.handler.sent := by
  cases e with
  | produce batch =>
    simp only [ConsumerStream.next, Option.map_eq_some_iff] at hnext
    obtain ⟨leader, -, rfl⟩ := hnext
    exact List.prefix_refl _
  | leaderOffsetUpdate =>
    simp only [ConsumerStream.next, Option.map_eq_some_iff] at hnext
    obtain ⟨h, hloop, rfl⟩ := hnext
    exact StreamLoop.sent_next hloop
  | consumerOffsetUpdate i =>
    simp only [ConsumerStream.next] at hnext
    split at hnext
    · cases hnext
    · simp only [Option.map_eq_some_iff] at hnext
      obtain ⟨h, hloop, rfl⟩ := hnext
      exact StreamLoop.sent_next hloop

omit [Crc32c] in
theorem ConsumerStream.consumed_prefix [Compressor] (hsent : s.handler.sent <+: s'.handler.sent) :
    s.consumed <+: s'.consumed := by
  obtain ⟨rest, hrest⟩ := hsent
  rw [ConsumerStream.consumed, ConsumerStream.consumed, ← hrest, List.flatMap_append]
  exact List.prefix_append _ _

end StreamRuns

/-! ### A batch cut by `max_bytes` -/

section Cut

variable [Crc32c] {c : ConsumerConfig} {s : ConsumerStream} {base : Int64} {chunks : List (List UInt8)}
  {placed : List (Batch RawRecords)} {S L : Nat}

/-- **The consumer acknowledges a cut batch whole.** Take a log built by appends from a non-negative
base, read under `ReadUncommitted`, and a consumer whose offset the loop knows to be the start of one
of its batches. When `max_bytes` ends inside that batch's raw records, the leader's next offset
update sends the batch cut there: the consumer reads the records of the cut batch, and acknowledges
the offset after the whole batch. -/
theorem ConsumerStream.leaderOffsetUpdate_cut [Compressor] (hiso : c.isolation = .readUncommitted)
    (hinv : s.leader.active.Inv base chunks placed S L) (hbase : 0 ≤ base.toInt)
    (hF : s.leader.bytes.length < 2 ^ 32) {k : Nat} (hk : k < placed.length)
    (hknown : s.handler.lastKnownConsumerOffset = some placed[k].baseOffset)
    {j : Nat} (hcut : c.maxBytes.toNat = batchFileHeaderSize + placed[k].schemaBytes.length + j)
    (hj : 0 < j) (hjlt : j < placed[k].records.bytes.length) :
    ∃ s₁ response, s.next c .leaderOffsetUpdate = some s₁ ∧ s₁.handler.sent = s.handler.sent ++ [response] ∧
      ∃ cut : Batch RawRecords, cut.baseOffset = placed[k].baseOffset ∧
        cut.header.lastOffsetDelta = placed[k].header.lastOffsetDelta ∧
        cut.records = (⟨placed[k].records.bytes.take j⟩ : RawRecords) ∧
        response.consumerRecords = batchRecords cut ∧
        response.acknowledged = some (placed[k].baseOffset + Int64.ofNat placed[k].recordsLen) := by
  obtain ⟨-, -, hhi⟩ := SourceReplica.batch_inside hinv hk
  obtain ⟨hmin, cut, hcbase, hlod, hcrecords, hdec⟩ := SourceReplica.fileSlice_cut hinv hk hcut hj hjlt
  let response := FilePartitionResponse.fileEncode
    ⟨.none, 0, ⟨(chunks.take k).flatten.length, c.maxBytes.toNat⟩⟩ s.leader.bytes
  have hsend : ConsumerStream.send c s.leader placed[k].baseOffset = some (some response, s.leader.getLeo, true) := by
    have hlen : c.maxBytes.toNat ≠ 0 := by omega
    simp only [ConsumerStream.send, sendBackFileRecords, hiso, SourceReplica.readPartitionSlice,
      SourceReplica.readRecords_batch hinv hbase hF hk, hmin, Option.getD_some, if_neg hlen]
    rfl
  -- the leader's log end lies past the consumer's offset
  have hahead : ¬ s.leader.asOffset.isolation c.isolation ≤ placed[k].baseOffset := by
    rw [hiso]
    exact Std.not_le.mpr (Int64.lt_iff_toInt_lt.mpr hhi)
  have hdecode : response.decode = some ⟨.none, 0, ⟨[cut]⟩⟩ := FilePartitionResponse.decode_fileEncode hdec
  refine ⟨{ s with handler := s.handler.afterSend (some response) s.leader.getLeo true }, response, ?_, rfl,
    cut, hcbase, hlod, hcrecords, ?_, ?_⟩
  · simp only [ConsumerStream.next, StreamLoop.next, hknown, if_neg hahead, StreamLoop.sendBack, hsend]
    rfl
  · rw [FetchablePartitionResponse.consumerRecords_of_decode hdecode, List.flatMap_singleton]
  · rw [FetchablePartitionResponse.acknowledged_of_decode hdecode]
    simp [FetchablePartitionResponse.nextOffsetForFetch, RecordSet.lastOffset, Batch.computedLastOffset,
      Batch.recordsLen, hlod, hcbase]

end Cut

/-! ### A batch cut in two -/

/-- The leader after the two-record batch is written to an empty source; the consumer's loop has
sent nothing yet and knows the consumer at offset 0. -/
def twoRecordsStream : ConsumerStream :=
  ⟨⟨(emptySource.active.appendBatch twoRecords).2.1, 0⟩, ⟨0, some 0, []⟩⟩

/-- With `max_bytes` of 70 the slice ends 13 bytes into the records of the 77-byte batch, inside the
second record: the consumer reads offset 0 alone and acknowledges offset 2, so offset 1 never
reaches it. -/
theorem twoRecords_consumed_cut :
    ∃ s₁ response, twoRecordsStream.next ⟨.readUncommitted, 70⟩ .leaderOffsetUpdate = some s₁ ∧
      s₁.handler.sent = [response] ∧
      ∃ cut : Batch RawRecords, cut.baseOffset = 0 ∧ cut.header.lastOffsetDelta = 1 ∧
        cut.records = (⟨twoRecords.records.bytes.take 13⟩ : RawRecords) ∧
        @FetchablePartitionResponse.consumerRecords Fluvio.Producer.passThrough response =
          @batchRecords Fluvio.Producer.passThrough cut ∧
        (@FetchablePartitionResponse.consumerRecords Fluvio.Producer.passThrough response).map Prod.fst = [0] ∧
        response.acknowledged = some 2 := by
  -- the consumer reads offset 0 alone
  have hread : (twoRecordsStream.next ⟨.readUncommitted, 70⟩ .leaderOffsetUpdate).map (fun s =>
      s.handler.sent.map fun r =>
        (@FetchablePartitionResponse.consumerRecords Fluvio.Producer.passThrough r).map Prod.fst) =
      some [[0]] := by
    decide +kernel
  have hcreate : IndexedSegment.create 0 1024 0 1000 = .ok emptySource.active := rfl
  have hfirst : (emptySource.active.appendBatch twoRecords).1 = .ok true := by decide +kernel
  have happ : emptySource.active.appendBatch twoRecords = (.ok true,
      (emptySource.active.appendBatch twoRecords).2.1, (emptySource.active.appendBatch twoRecords).2.2) := by
    rw [← hfirst]
  have hsmall : ∀ bytes, Encoder.encode twoRecords = some bytes → bytes.length < 2 ^ 31 := by
    intro bytes hbytes
    have hlen : (Encoder.encode twoRecords).map List.length = some 77 := by decide +kernel
    rw [hbytes] at hlen
    simp at hlen
    omega
  obtain ⟨c, hinv⟩ := (IndexedSegment.Inv.create (R := RawRecords) hcreate).appendBatch
    RawRecords.sizeAgrees (le_refl _) hsmall (by decide) happ
  have hplaced : ((emptySource.active.appendBatch twoRecords).2.2.baseOffset,
      (emptySource.active.appendBatch twoRecords).2.2.header.lastOffsetDelta,
      (emptySource.active.appendBatch twoRecords).2.2.schemaBytes.length,
      (emptySource.active.appendBatch twoRecords).2.2.records.bytes.length,
      (emptySource.active.appendBatch twoRecords).2.2.recordsLen) = (0, 1, 0, 20, 2) := by
    decide +kernel
  have hraw : (emptySource.active.appendBatch twoRecords).2.2.records.bytes = twoRecords.records.bytes := by
    decide +kernel
  simp only [Prod.mk.injEq] at hplaced
  obtain ⟨hbase, hlod, hschema, hbytes, hlen⟩ := hplaced
  obtain ⟨s₁, response, hnext, hsent, cut, hcbase, hclod, hcrecords, hcons, hack⟩ :=
    @ConsumerStream.leaderOffsetUpdate_cut _ ⟨.readUncommitted, 70⟩ twoRecordsStream _ _ _ _ _ Fluvio.Producer.passThrough
      rfl hinv (by decide) (by decide +kernel) 0 (by simp) (by simp [twoRecordsStream, hbase]) 13
      (by simp [hschema]; rfl) (by decide) (by simp [hbytes])
  have hsent' : s₁.handler.sent = [response] := by simpa [twoRecordsStream] using hsent
  rw [hnext, Option.map_some, hsent', Option.some.injEq, List.map_singleton, List.cons.injEq] at hread
  refine ⟨s₁, response, hnext, hsent', cut, ?_, ?_, ?_, hcons, hread.1, ?_⟩
  · simpa [hbase] using hcbase
  · simpa [hlod] using hclod
  · simpa [hraw] using hcrecords
  · simpa [hbase, hlen] using hack

end Fluvio.Spu
