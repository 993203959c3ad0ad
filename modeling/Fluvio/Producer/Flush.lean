import Fluvio.Producer.Accumulator
import Fluvio.Spu.Produce

/-!
The flush of a partition producer (`fluvio/src/producer/partition_producer.rs`) and the metadata
its futures resolve to (`producer/record.rs`, `producer/accumulator.rs`).

`flush` takes the ready batches from the front of the deque, converts each to a raw batch, and
sends one partition request per batch, in order, in one produce request. Whichever the delivery
semantic, the n-th partition response goes to the n-th batch, and `FutureRecordMetadata::wait`
adds the record's relative offset to its batch's base offset. The SPU writes the partition
requests one after the other at the log end offset (`Fluvio.Spu.handleProduceTopic_ok`).

* `flush_placed` — a flush whose request is written in full places its batches one after the
  other from the log end offset, and each future resolves to where its batch was written;
* `Placed.addresses` — under the accumulator's invariant, a record of placed batches is reported
  by `wait` at the offset its batch starts at plus its offset delta, which is where the log
  stores it.
-/

namespace Fluvio.Producer

open Protocol Spu Storage

/-- `DeliverySemantic`. -/
inductive DeliverySemantic
  | atMostOnce
  | atLeastOnce
deriving DecidableEq, Repr

/-- `batch.is_full() || batch.elapsed() as u128 >= linger.as_millis()`. -/
def MemoryBatch.isReady (b : MemoryBatch) (linger : Nat) (now : Timestamp) : Bool :=
  b.isFull || decide (linger ≤ (b.elapsed now).toInt.toNat)

/-- The batches `flush` pops from the front of the deque: all of them when forced, and otherwise
those before the first that is not ready. -/
def readyBatches (force : Bool) (linger : Nat) (now : Timestamp) (batches : List MemoryBatch) : List MemoryBatch :=
  batches.takeWhile fun b => force || b.isReady linger now

section Request

variable [Compressor]

/-- `batch.try_into()` in `flush`: the `Batch` of `p_batch.batch()` as a `Batch<RawRecords>`. -/
def MemoryBatch.toRawBatch (p : MemoryBatch) : Option (Except CompressionError (Batch RawRecords)) :=
  p.toBatch.bind Batch.toRaw

/-- The partition requests of `flush`, one record set of one raw batch per batch, in order; the
first conversion error ends the flush. -/
def flushRequests : List MemoryBatch → Option (Except CompressionError (List (RecordSet RawRecords)))
  | [] => some (.ok [])
  | p :: rest =>
    match p.toRawBatch with
    | none => none
    | some (.error e) => some (.error e)
    | some (.ok raw) => (flushRequests rest).map (·.map (⟨[raw]⟩ :: ·))

end Request

/-- `PartitionProduceResponse`, as the producer reads it. -/
structure PartitionProduceResponse where
  errorCode : ErrorCode
  baseOffset : Int64
deriving DecidableEq, Repr

/-- `From<PartitionWriteResult> for PartitionProduceResponse`. -/
def PartitionProduceResponse.ofWriteResult (w : PartitionWriteResult) : PartitionProduceResponse :=
  ⟨w.errorCode, w.baseOffset⟩

/-- What the `ProducePartitionResponseFuture`s of `send_to_socket` resolve to, in the order of
the partition requests. At most once, the `index`-th partition of the response, with its error
code dropped; at least once, each partition of the response with its own. -/
def sendToSocket (semantic : DeliverySemantic) (partitionCount : Nat) (responses : List PartitionProduceResponse) :
    List (Int64 × ErrorCode) :=
  match semantic with
  | .atMostOnce => (List.range partitionCount).map fun index =>
    match responses[index]? with
    | some p => (p.baseOffset, .none)
    | none => (0, .other "partition not found during collecting async response")
  | .atLeastOnce => responses.map fun p => (p.baseOffset, p.errorCode)

/-- The errors of `BatchMetadata::base_offset`. -/
inductive MetadataError
  | getRecordMetadata
  | spuErrorCode (code : ErrorCode)
deriving DecidableEq, Repr

/-- `BatchMetadata::base_offset` of the `index`-th flushed batch. `flush` zips the notifiers with
the futures, so the batch hears from the future at its index; without one, its notifier is
dropped and the receiver fails. -/
def batchBaseOffset (resolved : List (Int64 × ErrorCode)) (index : Nat) : Except MetadataError Int64 :=
  match resolved[index]? with
  | none => .error .getRecordMetadata
  | some (offset, error) => if error = .none then .ok offset else .error (.spuErrorCode error)

/-- `FutureRecordMetadata::wait`: the base offset of the record's batch plus its relative
offset. -/
def PartialFutureRecordMetadata.wait (f : PartialFutureRecordMetadata) (resolved : List (Int64 × ErrorCode)) :
    Except MetadataError Int64 :=
  (batchBaseOffset resolved f.batch).map (· + f.relativeOffset)

/-- The log holds `record` at `offset`: one of its batches is the raw form of a batch in which
`record` was stamped, placed at a base offset from which the record's offset delta reaches
`offset`. -/
def StoredAt [Compressor] (log : List (Batch RawRecords)) (record : Record RecordData) (offset : Int64) : Prop :=
  ∃ (p : MemoryBatch) (raw : Batch RawRecords) (base : Int64) (j : Nat) (hj : j < p.records.length),
    p.toRawBatch = some (.ok raw) ∧ { raw with baseOffset := base } ∈ log ∧ Stamps record p.records[j] ∧
      base + p.records[j].preamble.offsetDelta = offset

/-- The batches `flushed` were written one after the other from the offset `leo`: the future of
each resolves to the offset after the records of the batches in front of it, and the log holds
its raw batch at that offset. -/
structure Placed [Compressor] (leo : Int64) (flushed : List MemoryBatch) (resolved : List (Int64 × ErrorCode))
    (log : List (Batch RawRecords)) : Prop where
  length : resolved.length = flushed.length
  batches : ∀ i p, flushed[i]? = some p →
    resolved[i]? = some (leo + Int64.ofNat ((flushed.take i).map fun p => p.records.length).sum, .none) ∧
    ∃ raw, p.toRawBatch = some (.ok raw) ∧
      { raw with baseOffset := leo + Int64.ofNat ((flushed.take i).map fun p => p.records.length).sum } ∈ log

/-! ### The request -/

section Request

variable [Compressor]

omit [Compressor] in
theorem map_map_eq_some_ok {ε α β : Type} {v : Option (Except ε α)} {f : α → β} {y : β}
    (h : v.map (·.map f) = some (.ok y)) : ∃ x, v = some (.ok x) ∧ f x = y := by
  cases v with
  | none => cases h
  | some result =>
    cases result with
    | error e => cases h
    | ok x => exact ⟨x, rfl, by simpa [Except.map] using h⟩

/-- **A flush that builds its request sends one record set of one raw batch per batch**, in the
order of the batches. -/
theorem flushRequests_ok : ∀ {batches : List MemoryBatch} {sets : List (RecordSet RawRecords)},
    flushRequests batches = some (.ok sets) →
      List.Forall₂ (fun p records => ∃ raw, p.toRawBatch = some (.ok raw) ∧ records = ⟨[raw]⟩) batches sets
  | [], sets, h => by
    simp only [flushRequests, Option.some.injEq, Except.ok.injEq] at h
    subst h
    exact .nil
  | p :: rest, sets, h => by
    simp only [flushRequests] at h
    split at h
    · cases h
    · cases h
    · rename_i raw hraw
      obtain ⟨sets', hrest, rfl⟩ := map_map_eq_some_ok h
      exact .cons ⟨raw, hraw, rfl⟩ (flushRequests_ok hrest)

omit [Compressor] in
/-- `Batch::<RawRecords>::try_from` keeps the header. -/
theorem Batch.header_toRaw [Compressor] {b : Batch MemoryRecords} {raw : Batch RawRecords}
    (h : b.toRaw = some (.ok raw)) : raw.header = b.header := by
  cases hbuf : Encoder.encode b.records with
  | none => simp [Batch.toRaw, hbuf] at h
  | some buf =>
    cases hc : b.header.getCompression with
    | error e => simp [Batch.toRaw, hbuf, hc, bind, Option.bind, Except.bind] at h
    | ok c =>
      cases hcomp : c.compress buf with
      | error e => simp [Batch.toRaw, hbuf, hc, hcomp, bind, Option.bind, Except.bind] at h
      | ok compressed =>
        rw [Batch.toRaw_of_compress hbuf hc hcomp] at h
        cases h
        rfl

omit [Compressor] in
/-- `MemoryBatch::records_len() - 1`, as `From<MemoryBatch>` writes it into the header. -/
theorem MemoryBatch.lastOffsetDelta_toBatch {p : MemoryBatch} {batch : Batch MemoryRecords}
    (h : p.toBatch = some batch) :
    batch.header.lastOffsetDelta = if 0 < Int32.ofNat p.records.length then Int32.ofNat p.records.length - 1
      else Int32.ofNat p.records.length := by
  unfold MemoryBatch.toBatch at h
  cases hsize : Encoder.writeSize p.records with
  | none => simp [hsize] at h
  | some size =>
    simp only [hsize, Option.pure_def, Option.bind_eq_bind, Option.bind_some, Option.some.injEq] at h
    subst h
    rfl

omit [Compressor] in
/-- A header whose `last_offset_delta` is `n - 1` counts `n` records, for `0 < n < 2 ^ 31`. -/
theorem Batch.recordsLen_of_lastOffsetDelta {R : Type} {b : Batch R} {n : Nat} (h0 : 0 < n) (hn : n < 2 ^ 31)
    (h : b.header.lastOffsetDelta = if 0 < Int32.ofNat n then Int32.ofNat n - 1 else Int32.ofNat n) :
    b.recordsLen = n := by
  have hto : (Int32.ofNat n).toInt = n := Int32.toInt_ofNat_of_lt hn
  have hpos : 0 < Int32.ofNat n := by
    rw [Int32.lt_iff_toInt_lt, hto, Int32.toInt_zero]
    omega
  have hsub : (Int32.ofNat n - 1).toInt = n - 1 := by
    rw [Int32.toInt_sub, hto, Int32.toInt_one, Int.bmod_def]
    split <;> omega
  rw [if_pos hpos] at h
  have hnonneg : ¬ b.header.lastOffsetDelta < 0 := by
    rw [h, Int32.lt_iff_toInt_lt, hsub, Int32.toInt_zero]
    omega
  unfold Batch.recordsLen
  rw [if_neg hnonneg, h, hsub]
  omega

/-- The raw batch of a batch of fewer than `2 ^ 31` records counts its records. -/
theorem MemoryBatch.recordsLen_toRawBatch {p : MemoryBatch} {raw : Batch RawRecords}
    (h : p.toRawBatch = some (.ok raw)) (hne : p.records ≠ []) (hlen : p.records.length < 2 ^ 31) :
    raw.recordsLen = p.records.length := by
  obtain ⟨batch, hbatch, hraw⟩ := Option.bind_eq_some_iff.mp h
  apply Batch.recordsLen_of_lastOffsetDelta (List.length_pos_iff.mpr hne) hlen
  rw [Batch.header_toRaw hraw]
  exact MemoryBatch.lastOffsetDelta_toBatch hbatch

end Request

/-! ### The responses -/

/-- One future per partition request, whichever the delivery semantic. -/
@[simp] theorem length_sendToSocket (semantic : DeliverySemantic) (responses : List PartitionProduceResponse) :
    (sendToSocket semantic responses.length responses).length = responses.length := by
  cases semantic <;> simp [sendToSocket]

/-- When no partition reports an error, the `i`-th future resolves to the `i`-th base offset,
whichever the delivery semantic. -/
theorem getElem?_sendToSocket (semantic : DeliverySemantic) {responses : List PartitionProduceResponse}
    (hnone : ∀ p ∈ responses, p.errorCode = .none) (i : Nat) :
    (sendToSocket semantic responses.length responses)[i]? = responses[i]?.map fun p => (p.baseOffset, .none) := by
  cases semantic with
  | atMostOnce =>
    rw [sendToSocket, List.getElem?_map]
    by_cases hi : i < responses.length
    · rw [List.getElem?_range hi]
      simp [List.getElem?_eq_getElem hi]
    · rw [List.getElem?_eq_none (by simpa using Nat.le_of_not_lt hi), List.getElem?_eq_none (Nat.le_of_not_lt hi)]
      rfl
  | atLeastOnce =>
    rw [sendToSocket, List.getElem?_map]
    cases hp : responses[i]? with
    | none => rfl
    | some p => simp [hnone p (List.mem_of_getElem? hp)]

theorem PartialFutureRecordMetadata.wait_of_resolved {f : PartialFutureRecordMetadata}
    {resolved : List (Int64 × ErrorCode)} {base : Int64} (h : resolved[f.batch]? = some (base, .none)) :
    f.wait resolved = .ok (base + f.relativeOffset) := by
  simp [PartialFutureRecordMetadata.wait, batchBaseOffset, h, Except.map]

/-! ### A flush, end to end -/

theorem forall₂_getElem? {α β : Type} {R : α → β → Prop} :
    ∀ {l₁ : List α} {l₂ : List β}, List.Forall₂ R l₁ l₂ → ∀ {i : Nat} {a : α}, l₁[i]? = some a →
      ∃ b, l₂[i]? = some b ∧ R a b
  | _, _, .nil, _, _, h => by simp at h
  | _, _, .cons hab _, 0, _, h => by
    simp only [List.getElem?_cons_zero, Option.some.injEq] at h
    exact ⟨_, rfl, h ▸ hab⟩
  | _, _, .cons _ hrest, i + 1, _, h => by
    rw [List.getElem?_cons_succ] at h ⊢
    exact forall₂_getElem? hrest h

theorem readyBatches_eq_take (force : Bool) (linger : Nat) (now : Timestamp) (batches : List MemoryBatch) :
    readyBatches force linger now batches = batches.take (readyBatches force linger now batches).length :=
  List.prefix_iff_eq_take.mp (List.takeWhile_prefix _)

section Flush

variable [Compressor] [Crc32c] {flushed : List MemoryBatch} {sets : List (RecordSet RawRecords)}
  {r r' : FileReplica} {compression : CompressionAlgorithm} {hwUpdate : Bool}
  {results : List (PartitionWriteResult × RecordSet RawRecords)}

omit [Crc32c] in
/-- Each record set of the request holds as many records as its batch. -/
theorem totalRecords_of_forall₂ :
    ∀ {flushed : List MemoryBatch} {sets : List (RecordSet RawRecords)},
      List.Forall₂ (fun p records => ∃ raw, p.toRawBatch = some (.ok raw) ∧ records = ⟨[raw]⟩) flushed sets →
      (∀ p ∈ flushed, p.records ≠ [] ∧ p.records.length < 2 ^ 31) →
      sets.map RecordSet.totalRecords = flushed.map fun p => p.records.length
  | _, _, .nil, _ => rfl
  | p :: _, _, .cons ⟨raw, hraw, rfl⟩ hrest, hbatches => by
    obtain ⟨hne, hlen⟩ := hbatches p List.mem_cons_self
    rw [List.map_cons, List.map_cons, totalRecords_of_forall₂ hrest (fun q hq => hbatches q (List.mem_cons_of_mem _ hq))]
    simp [RecordSet.totalRecords, MemoryBatch.recordsLen_toRawBatch hraw hne hlen]

/-- **A flush whose partitions are all written places its batches from the log end offset**: the
log end offset moves past their records, and each future resolves to where its batch was
written, whichever the delivery semantic. -/
theorem flush_placed (hreq : flushRequests flushed = some (.ok sets))
    (hbatches : ∀ p ∈ flushed, p.records ≠ [] ∧ p.records.length < 2 ^ 31)
    (hspu : handleProduceTopic r compression hwUpdate sets = (.ok results, r'))
    (hok : ∀ w ∈ results, w.1.errorCode = .none) (semantic : DeliverySemantic) :
    r'.getLeo = r.getLeo + Int64.ofNat (flushed.map fun p => p.records.length).sum ∧
      Placed r.getLeo flushed (sendToSocket semantic sets.length (results.map fun w => .ofWriteResult w.1))
        (results.flatMap fun w => w.2.batches) := by
  have hrel := flushRequests_ok hreq
  have hcounts := totalRecords_of_forall₂ hrel hbatches
  -- every record set has records, so the SPU writes each of them
  have hne : ∀ records ∈ sets, records.totalRecords ≠ 0 := by
    intro records hmem
    obtain ⟨q, hq, hqlen⟩ := List.mem_map.mp (hcounts ▸ List.mem_map_of_mem hmem)
    rw [← hqlen]
    exact (List.length_pos_iff.mpr (hbatches q hq).1).ne'
  obtain ⟨hplaced, hleo⟩ := handleProduceTopic_ok hne hspu hok
  have hlength : sets.length = (results.map fun w => PartitionProduceResponse.ofWriteResult w.1).length := by
    rw [List.length_map, ← length_placeSets r.getLeo sets, ← hplaced, List.length_map]
  have hnone : ∀ q ∈ results.map (fun w => PartitionProduceResponse.ofWriteResult w.1), q.errorCode = .none := by
    intro q hq
    obtain ⟨w', hw', rfl⟩ := List.mem_map.mp hq
    exact hok w' hw'
  refine ⟨by rw [hleo, hcounts], ⟨?_, fun i p hp => ?_⟩⟩
  · rw [hlength, length_sendToSocket, ← hlength, hrel.length_eq]
  obtain ⟨records, hrecords, raw, hraw, rfl⟩ := forall₂_getElem? hrel hp
  have hbefore : (sets.take i).map RecordSet.totalRecords = (flushed.take i).map fun p => p.records.length := by
    rw [List.map_take, hcounts, ← List.map_take]
  have hi := congrArg (·[i]?) hplaced
  simp only [List.getElem?_map, getElem?_placeSets, hrecords, hbefore, Option.map_some] at hi
  obtain ⟨w, hw, hwi⟩ := Option.map_eq_some_iff.mp hi
  simp only [Prod.mk.injEq] at hwi
  obtain ⟨hbase, hset⟩ := hwi
  refine ⟨?_, raw, hraw, List.mem_flatMap.mpr ⟨w, List.mem_of_getElem? hw, ?_⟩⟩
  · rw [hlength, getElem?_sendToSocket semantic hnone, List.getElem?_map, hw]
    simp [PartitionProduceResponse.ofWriteResult, hbase]
  · rw [hset]
    simp [placeBatches]

end Flush

/-! ### Placements, and the records in them -/

section Placement

variable [Compressor] {leo : Int64} {flushed : List MemoryBatch} {resolved : List (Int64 × ErrorCode)}
  {log : List (Batch RawRecords)}

/-- Batches placed after the records of `flushed` follow them. -/
theorem Placed.append {rest : List MemoryBatch} {resolved' : List (Int64 × ErrorCode)}
    {log' : List (Batch RawRecords)} (h : Placed leo flushed resolved log)
    (h' : Placed (leo + Int64.ofNat (flushed.map fun p => p.records.length).sum) rest resolved' log') :
    Placed leo (flushed ++ rest) (resolved ++ resolved') (log ++ log') := by
  refine ⟨by simp [h.length, h'.length], fun i p hp => ?_⟩
  rcases Nat.lt_or_ge i flushed.length with hi | hi
  · -- a batch of `flushed`, with the batches in front of it
    rw [List.getElem?_append_left hi] at hp
    obtain ⟨hres, raw, hraw, hmem⟩ := h.batches i p hp
    rw [List.take_append_of_le_length hi.le, List.getElem?_append_left (h.length ▸ hi)]
    exact ⟨hres, raw, hraw, List.mem_append_left _ hmem⟩
  · -- a batch of `rest`, behind all of `flushed`
    obtain ⟨i', rfl⟩ := Nat.exists_eq_add_of_le hi
    rw [List.getElem?_append_right hi, Nat.add_sub_cancel_left] at hp
    obtain ⟨hres, raw, hraw, hmem⟩ := h'.batches i' p hp
    have hoffset : leo + Int64.ofNat (((flushed ++ rest).take (flushed.length + i')).map fun p => p.records.length).sum =
        leo + Int64.ofNat (flushed.map fun p => p.records.length).sum +
          Int64.ofNat ((rest.take i').map fun p => p.records.length).sum := by
      rw [List.take_length_add_append, List.map_append, List.sum_append, Int64.ofNat_add, Int64.add_assoc]
    rw [hoffset, List.getElem?_append_right (by rw [h.length]; exact hi), h.length, Nat.add_sub_cancel_left]
    exact ⟨hres, raw, hraw, List.mem_append_right _ hmem⟩

/-- **The records of placed batches are reported and stored at their offsets**: under the
accumulator's invariant for the batches `flushed` and those behind them, the `k`-th accepted
record, when it is among the records of `flushed`, is reported by `wait` at `leo + k` and stored
there. -/
theorem Placed.addresses {acc : RecordAccumulator} {queued : List MemoryBatch}
    {pushes : List (Record RecordData × PushResult)} (hinv : acc.Inv ⟨flushed ++ queued, pushes⟩)
    (hplaced : Placed leo flushed resolved log) {k : Nat} (hk : k < (accepted pushes).length)
    (hkn : k < (flushed.map fun p => p.records.length).sum) :
    (accepted pushes)[k].2.wait resolved = .ok (leo + Int64.ofNat k) ∧
      StoredAt log (accepted pushes)[k].1 (leo + Int64.ofNat k) := by
  obtain ⟨b, hb, j, hj, hoff, hsum, hdelta, hstamp⟩ := hinv.addresses k hk
  dsimp only at hb hsum
  -- the record's batch is among those flushed: the records in front of it are fewer than `k`
  have hi : (accepted pushes)[k].2.batch < flushed.length := by
    by_contra hge
    have hmono : (flushed.map fun p => p.records.length).sum ≤
        (((flushed ++ queued).take (accepted pushes)[k].2.batch).map fun p => p.records.length).sum := by
      rw [List.take_append, List.take_of_length_le (by omega), List.map_append, List.sum_append]
      exact Nat.le_add_right _ _
    omega
  have hp : flushed[(accepted pushes)[k].2.batch]? = some b := by
    rw [List.getElem?_append_left hi] at hb
    exact hb
  have hfront : (flushed ++ queued).take (accepted pushes)[k].2.batch = flushed.take (accepted pushes)[k].2.batch :=
    List.take_append_of_le_length hi.le
  obtain ⟨hres, raw, hraw, hmem⟩ := hplaced.batches _ _ hp
  have hoffset : leo + Int64.ofNat ((flushed.take (accepted pushes)[k].2.batch).map
      fun p => p.records.length).sum + Int64.ofNat j = leo + Int64.ofNat k := by
    rw [Int64.add_assoc, ← Int64.ofNat_add, ← hfront, hsum]
  refine ⟨?_, b, raw, _, j, hj, hraw, hmem, hstamp, ?_⟩
  · rw [PartialFutureRecordMetadata.wait_of_resolved hres, hoff, hoffset]
  · rw [hdelta, hoffset]

end Placement

end Fluvio.Producer
