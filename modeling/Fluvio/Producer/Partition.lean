import Fluvio.Producer.Flush

/-!
The partition producer over a run (`fluvio/src/producer/partition_producer.rs` and
`producer/mod.rs`), with the leader of its partition
(`fluvio-spu/src/services/public/produce_handler.rs`).

`TopicProducer::send` pushes each record into the partition's deque, and the partition
producer's task flushes, one flush after the other, when a batch is full, at the linger time or
when asked to. The leader handles the requests of a connection one after the other, so the
request of a flush is written before that of the next. A run interleaves sends and flushes in
any order; it is a run on which every produce request succeeds on its first attempt, and on
which nothing else writes to the partition.

* `PartitionState.Inv` — over every run: the accumulator's invariant for all the partition's
  batches, flushed ones first, and the flushed batches placed one after the other from the log
  end offset the run started at;
* `producedOffsets_exact` — with fewer than `2 ^ 31` records a batch, the `k`-th record flushed
  is reported at, and stored at, the starting log end offset plus `k`; these offsets increase
  while they stay below `i64::MAX`;
* `maxOffsetLog_offsets_wrap` — from a log that ends at `i64::MAX`, the second record is
  reported, and stored, at `i64::MIN`.
-/

namespace Fluvio.Producer

open Protocol Spu Storage

/-- What a run reads: the producer's accumulator, linger and delivery semantic, the topic's
compression, and whether the leader is its only in-sync replica. -/
structure PartitionConfig where
  accumulator : RecordAccumulator
  linger : Nat
  semantic : DeliverySemantic
  compression : CompressionAlgorithm
  hwUpdate : Bool

/-- The partition on both sides of a run: the batches flushed and those still in the deque, each
`send`'s record and result, what the futures of the flushed batches resolve to, the batches the
leader wrote, and the leader's replica. -/
structure PartitionState where
  flushed : List MemoryBatch
  queued : List MemoryBatch
  pushes : List (Record RecordData × PushResult)
  resolved : List (Int64 × ErrorCode)
  log : List (Batch RawRecords)
  replica : FileReplica

/-- A run starts with an empty deque, on the leader's replica `r`. -/
def PartitionState.init (r : FileReplica) : PartitionState := ⟨[], [], [], [], [], r⟩

/-- The calls of a run. -/
inductive PartitionCall
  | send (record : Record RecordData) (now : Timestamp)
  | flush (force : Bool) (now : Timestamp)

section Step

variable [Compressor] [Crc32c] (c : PartitionConfig)

/-- `TopicProducer::send` of `record` at the clock reading `now`: `push_record` on the deque,
the future's batch numbered among all the partition's batches. -/
def PartitionState.send (s : PartitionState) (record : Record RecordData) (now : Timestamp) :
    Option PartitionState :=
  (c.accumulator.pushRecord s.queued record now).map fun p =>
    { s with queued := p.2, pushes := s.pushes ++ [(record, p.1.map (·.behind s.flushed.length))] }

/-- `PartitionProducer::flush` and the leader's `handle_produce_request` of its request, when the
request is built and every partition of it is written: the ready batches leave the deque, their
futures resolve, and the leader's log holds their batches. -/
def PartitionState.flush (s : PartitionState) (force : Bool) (now : Timestamp) : Option PartitionState :=
  let ready := readyBatches force c.linger now s.queued
  match flushRequests ready with
  | some (.ok sets) =>
    match handleProduceTopic s.replica c.compression c.hwUpdate sets with
    | (.ok results, replica) =>
      if results.all fun w => w.1.errorCode == .none then
        some ⟨s.flushed ++ ready, s.queued.drop ready.length, s.pushes,
          s.resolved ++ sendToSocket c.semantic sets.length (results.map fun w => .ofWriteResult w.1),
          s.log ++ results.flatMap (fun w => w.2.batches), replica⟩
      else none
    | (.error _, _) => none
  | _ => none

/-- One call of a run. -/
def PartitionState.next (s : PartitionState) : PartitionCall → Option PartitionState
  | .send record now => s.send c record now
  | .flush force now => s.flush c force now

end Step

/-! ### What one call does -/

section Calls

variable [Compressor] [Crc32c] {c : PartitionConfig} {s s' : PartitionState}

/-- **What one flush does**: the request of the ready batches is built, the leader writes every
partition of it, and the state moves on by them. -/
theorem PartitionState.flush_cases {force : Bool} {now : Timestamp} (h : s.flush c force now = some s') :
    ∃ sets results replica, flushRequests (readyBatches force c.linger now s.queued) = some (.ok sets) ∧
      handleProduceTopic s.replica c.compression c.hwUpdate sets = (.ok results, replica) ∧
      (∀ w ∈ results, w.1.errorCode = .none) ∧
      s' = ⟨s.flushed ++ readyBatches force c.linger now s.queued,
        s.queued.drop (readyBatches force c.linger now s.queued).length, s.pushes,
        s.resolved ++ sendToSocket c.semantic sets.length (results.map fun w => .ofWriteResult w.1),
        s.log ++ results.flatMap (fun w => w.2.batches), replica⟩ := by
  unfold PartitionState.flush at h
  dsimp only at h
  split at h
  · rename_i sets hreq
    split at h
    · rename_i results replica hspu
      split_ifs at h with hall
      cases h
      refine ⟨sets, results, replica, hreq, hspu, ?_, rfl⟩
      simpa using hall
    · cases h
  · cases h

/-- What holds after every run from the replica `r`: the accumulator's invariant for all the
partition's batches, flushed ones first; and while every flushed batch has fewer than `2 ^ 31`
records, the flushed batches are placed one after the other from `r`'s log end offset, and the
replica's log end offset is past their records. -/
structure PartitionState.Inv (c : PartitionConfig) (r : FileReplica) (s : PartitionState) : Prop where
  accumulator : c.accumulator.Inv ⟨s.flushed ++ s.queued, s.pushes⟩
  placed : (∀ b ∈ s.flushed, b.records.length < 2 ^ 31) →
    s.replica.getLeo = r.getLeo + Int64.ofNat (s.flushed.map fun b => b.records.length).sum ∧
      Placed r.getLeo s.flushed s.resolved s.log

omit [Crc32c] in
theorem PartitionState.inv_init (c : PartitionConfig) (r : FileReplica) : (PartitionState.init r).Inv c r where
  accumulator := c.accumulator.inv_empty
  placed _ := ⟨by simp [PartitionState.init], ⟨rfl, fun i p hp => by simp [PartitionState.init] at hp⟩⟩

variable {r : FileReplica}

omit [Crc32c] in
/-- A send keeps the invariant: its record joins the deque, and nothing flushed moves. -/
theorem PartitionState.Inv.send {record : Record RecordData} {now : Timestamp} (hinv : s.Inv c r)
    (h : s.send c record now = some s') : s'.Inv c r := by
  obtain ⟨⟨res, queued⟩, hpush, rfl⟩ := Option.map_eq_some_iff.mp h
  exact ⟨hinv.accumulator.push hpush, hinv.placed⟩

/-- A flush keeps the invariant: its batches leave the deque for the flushed ones, and the leader
writes them after those flushed before. -/
theorem PartitionState.Inv.flush {force : Bool} {now : Timestamp} (hinv : s.Inv c r)
    (h : s.flush c force now = some s') : s'.Inv c r := by
  obtain ⟨sets, results, replica, hreq, hspu, hok, rfl⟩ := flush_cases h
  have htake := readyBatches_eq_take force c.linger now s.queued
  refine ⟨?_, fun hsmall => ?_⟩
  · -- the partition's batches are the same, one boundary further
    have hsame : s.flushed ++ readyBatches force c.linger now s.queued ++
        s.queued.drop (readyBatches force c.linger now s.queued).length = s.flushed ++ s.queued := by
      rw [List.append_assoc]
      nth_rewrite 1 [htake]
      rw [List.take_append_drop]
    dsimp only
    rw [hsame]
    exact hinv.accumulator
  · have hflushed : ∀ b ∈ s.flushed, b.records.length < 2 ^ 31 := fun b hb => hsmall b (List.mem_append_left _ hb)
    obtain ⟨hleo, hplaced⟩ := hinv.placed hflushed
    have hready : ∀ p ∈ readyBatches force c.linger now s.queued, p.records ≠ [] ∧ p.records.length < 2 ^ 31 := by
      intro p hp
      have hq : p ∈ s.queued := (List.takeWhile_prefix _).subset hp
      exact ⟨(hinv.accumulator.batches p (List.mem_append_right _ hq)).nonempty,
        hsmall p (List.mem_append_right _ hp)⟩
    obtain ⟨hleo', hplaced'⟩ := flush_placed hreq hready hspu hok c.semantic
    rw [hleo] at hleo' hplaced'
    refine ⟨?_, hplaced.append hplaced'⟩
    rw [hleo', List.map_append, List.sum_append, Int64.ofNat_add, Int64.add_assoc]

theorem PartitionState.Inv.next {call : PartitionCall} (hinv : s.Inv c r) (h : s.next c call = some s') :
    s'.Inv c r := by
  cases call with
  | send record now => exact hinv.send h
  | flush force now => exact hinv.flush h

/-- **Every run keeps the invariant.** -/
theorem PartitionState.reachable_inv (h : Trace.Reachable (PartitionState.next c) (.init r) s) : s.Inv c r :=
  h.invariant (PartitionState.inv_init c r) fun _ _ _ hs hnext => hs.next hnext

end Calls

/-! ### The offsets a run reports -/

/-- **Produced offsets are exact.** After any run of sends and flushes from the leader's replica
`r`, on which every produce request succeeds, with fewer than `2 ^ 31` records in each flushed
batch: the leader's log end offset is `r`'s plus the `n` records flushed, which are the first `n`
records accepted; whichever the delivery semantic, `FutureRecordMetadata::wait` reports the
`k`-th of them at `r`'s log end offset plus `k`, and the leader's log stores it there; while
these offsets stay in `[0, i64::MAX]`, they increase in the order the records were sent. -/
theorem producedOffsets_exact [Compressor] [Crc32c] {c : PartitionConfig} {r : FileReplica} {s : PartitionState}
    (hrun : Trace.Reachable (PartitionState.next c) (.init r) s)
    (hlen : ∀ b ∈ s.flushed, b.records.length < 2 ^ 31) :
    let n := (s.flushed.map fun b => b.records.length).sum
    s.replica.getLeo = r.getLeo + Int64.ofNat n ∧ n ≤ (accepted s.pushes).length ∧
      (∀ k (hk : k < (accepted s.pushes).length), k < n →
        (accepted s.pushes)[k].2.wait s.resolved = .ok (r.getLeo + Int64.ofNat k) ∧
          StoredAt s.log (accepted s.pushes)[k].1 (r.getLeo + Int64.ofNat k)) ∧
      (0 ≤ r.getLeo.toInt → r.getLeo.toInt + n < 2 ^ 63 →
        ∀ k₁ k₂, k₁ < k₂ → k₂ < n → r.getLeo + Int64.ofNat k₁ < r.getLeo + Int64.ofNat k₂) := by
  intro n
  have hinv := PartitionState.reachable_inv hrun
  obtain ⟨hleo, hplaced⟩ := hinv.placed hlen
  -- the accepted records are those of the flushed batches, then those of the deque
  have hcount : (accepted s.pushes).length = n + (s.queued.map fun b => b.records.length).sum := by
    rw [hinv.accumulator.records.length_eq, List.length_flatMap, List.map_append, List.sum_append]
  refine ⟨hleo, by omega, fun k hk hkn => hplaced.addresses hinv.accumulator hk hkn, ?_⟩
  intro h0 hmax k₁ k₂ h12 h2n
  rw [Int64.lt_iff_toInt_lt, Bits.toInt_add_ofNat h0 (by omega), Bits.toInt_add_ofNat h0 (by omega)]
  omega

/-! ### Sample runs -/

/-- Batches and requests of 1000 bytes with a linger of 10 ms, uncompressed and at least once, to
a topic that takes any compression, on a leader with followers. -/
def roomyConfig : PartitionConfig := ⟨⟨1000, 1000, 10, .none⟩, 10, .atLeastOnce, .any, false⟩

/-- A record whose value is the one byte `b`. -/
def byteRecord (b : UInt8) : Record RecordData := ⟨default, none, ⟨[b]⟩, 0⟩

/-- A codec that hands its input back. -/
@[reducible] def passThrough : Compressor := ⟨fun _ src => .ok src, fun _ src => .ok src⟩

/-- An empty log at offset `0`. -/
def emptyLog : FileReplica := FileReplica.create 0 1024 1024

/-- Two records, each flushed on its own. -/
def twoFlushes : List PartitionCall :=
  [.send (byteRecord 1) 0, .flush true 0, .send (byteRecord 2) 0, .flush true 0]

theorem twoFlushes_offsets_exact :
    ∃ s, Trace.run (@PartitionState.next passThrough _ roomyConfig) (.init emptyLog) twoFlushes = some s ∧
      (∀ b ∈ s.flushed, b.records.length < 2 ^ 31) ∧
      let n := (s.flushed.map fun b => b.records.length).sum
      s.replica.getLeo = emptyLog.getLeo + Int64.ofNat n ∧ n ≤ (accepted s.pushes).length ∧
        (∀ k (hk : k < (accepted s.pushes).length), k < n →
          (accepted s.pushes)[k].2.wait s.resolved = .ok (emptyLog.getLeo + Int64.ofNat k) ∧
            @StoredAt passThrough s.log (accepted s.pushes)[k].1 (emptyLog.getLeo + Int64.ofNat k)) ∧
        (0 ≤ emptyLog.getLeo.toInt → emptyLog.getLeo.toInt + n < 2 ^ 63 →
          ∀ k₁ k₂, k₁ < k₂ → k₂ < n → emptyLog.getLeo + Int64.ofNat k₁ < emptyLog.getLeo + Int64.ofNat k₂) := by
  obtain ⟨s, hs⟩ : ∃ s, Trace.run (@PartitionState.next passThrough _ roomyConfig) (.init emptyLog) twoFlushes = some s :=
    Option.isSome_iff_exists.mp (by decide +kernel)
  have hlen : ∀ b ∈ s.flushed, b.records.length < 2 ^ 31 := by
    have hsmall : (Trace.run (@PartitionState.next passThrough _ roomyConfig) (.init emptyLog) twoFlushes).map
        (fun s => s.flushed.all fun b => decide (b.records.length < 2 ^ 31)) = some true := by
      decide +kernel
    rw [hs] at hsmall
    simpa using hsmall
  exact ⟨s, hs, hlen, @producedOffsets_exact passThrough _ _ _ _ (Trace.reachable_of_run hs) hlen⟩

/-- A log that ends at `i64::MAX`. -/
def maxOffsetLog : FileReplica := FileReplica.create 9223372036854775807 1024 1024

/-- Two records, flushed together. -/
def oneFlushOfTwo : List PartitionCall :=
  [.send (byteRecord 1) 0, .send (byteRecord 2) 0, .flush true 0]

/-- The batch of `oneFlushOfTwo`: both records, at offset deltas `0` and `1`. -/
def twoRecordsBatch : MemoryBatch :=
  ⟨.none, 1000, 1000, 20, false, 0, [⟨⟨0, 0, 0⟩, none, ⟨[1]⟩, 0⟩, ⟨⟨0, 0, 1⟩, none, ⟨[2]⟩, 0⟩]⟩

/-- The raw batch of `twoRecordsBatch`: the record count `2`, then each record of length `7` with
its offset delta. -/
def twoRecordsRaw : Batch RawRecords :=
  ⟨1, 20, { (default : BatchHeader) with lastOffsetDelta := 1, firstTimestamp := 0, maxTimeStamp := 0 }, 0,
    ⟨[0, 0, 0, 2, 14, 0, 0, 0, 0, 2, 1, 0, 14, 0, 0, 2, 0, 2, 2, 0]⟩⟩

/-- From a log that ends at `i64::MAX`, the leader writes the batch of two records there and its
log end offset wraps to `i64::MIN + 1`; the second record is reported at `i64::MIN`, below the
first, and it is stored there. -/
theorem maxOffsetLog_offsets_wrap :
    ∃ s, Trace.run (@PartitionState.next passThrough _ roomyConfig) (.init maxOffsetLog) oneFlushOfTwo = some s ∧
      (∀ b ∈ s.flushed, b.records.length < 2 ^ 31) ∧
      (accepted s.pushes).map (fun p => p.2.wait s.resolved) = [.ok 9223372036854775807, .ok (-9223372036854775808)] ∧
      @StoredAt passThrough s.log (byteRecord 2) (-9223372036854775808) ∧
      s.replica.getLeo = -9223372036854775807 := by
  obtain ⟨s, hs⟩ : ∃ s, Trace.run (@PartitionState.next passThrough _ roomyConfig) (.init maxOffsetLog) oneFlushOfTwo =
      some s :=
    Option.isSome_iff_exists.mp (by decide +kernel)
  -- what the run leaves, read off the run
  have hflushed : (Trace.run (@PartitionState.next passThrough _ roomyConfig) (.init maxOffsetLog) oneFlushOfTwo).map
      (·.flushed) = some [twoRecordsBatch] := by
    decide +kernel
  have hwait : (Trace.run (@PartitionState.next passThrough _ roomyConfig) (.init maxOffsetLog) oneFlushOfTwo).map
      (fun s => (accepted s.pushes).map fun p => p.2.wait s.resolved) =
        some [.ok 9223372036854775807, .ok (-9223372036854775808)] := by
    decide +kernel
  have hlog : (Trace.run (@PartitionState.next passThrough _ roomyConfig) (.init maxOffsetLog) oneFlushOfTwo).map
      (·.log) = some [{ twoRecordsRaw with baseOffset := 9223372036854775807 }] := by
    decide +kernel
  have hleo : (Trace.run (@PartitionState.next passThrough _ roomyConfig) (.init maxOffsetLog) oneFlushOfTwo).map
      (·.replica.getLeo) = some (-9223372036854775807) := by
    decide +kernel
  rw [hs, Option.map_some, Option.some.injEq] at hflushed hwait hlog hleo
  refine ⟨s, hs, by rw [hflushed]; decide, hwait, ?_, hleo⟩
  -- the second record of the batch, at offset delta `1` from the base `i64::MAX`
  exact ⟨twoRecordsBatch, twoRecordsRaw, 9223372036854775807, 1, by decide, by decide +kernel,
    by rw [hlog]; exact List.mem_singleton_self _, ⟨1, 0, rfl⟩, by decide⟩

end Fluvio.Producer
