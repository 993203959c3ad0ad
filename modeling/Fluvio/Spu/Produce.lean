import Fluvio.Storage.Replica
import Fluvio.Protocol.Compression
import Fluvio.Protocol.ErrorCode

/-!
The produce path of the SPU (`fluvio-spu/src/services/public/produce_handler.rs`,
`storage/mod.rs` and `replication/leader/replica_state.rs`) for the partitions of a topic whose
leader is this SPU, with no SmartModule and no mirror.

Each partition request is checked against the topic's compression and written by
`write_record_set`, which takes the base offset it reports from the log end offset before the
write. The partition requests of a topic are handled one after the other on the same replica.

* `handleProduceTopic_ok` — when every partition request of a topic is written, the response of
  each names the offset its record set was written at, and the record sets are placed one after
  the other from the log end offset before the request.
-/

namespace Fluvio.Spu

open Protocol Storage

/-- `CompressionAlgorithm`: the compression a topic accepts. -/
inductive CompressionAlgorithm
  | any
  | none
  | gzip
  | snappy
  | lz4
  | zstd
deriving DecidableEq, Repr

section Write

/-- `validate_records`: every batch names a compression, and one the topic accepts. -/
def validateRecords {R : Type} (records : RecordSet R) (compression : CompressionAlgorithm) : Bool :=
  records.batches.all fun batch =>
    match batch.header.getCompression with
    | .error _ => false
    | .ok batchCompression =>
      match compression with
      | .any => true
      | .none => batchCompression == .none
      | .gzip => batchCompression == .gzip
      | .snappy => batchCompression == .snappy
      | .lz4 => batchCompression == .lz4
      | .zstd => batchCompression == .zstd

/-- `PartitionWriteResult`, without the replica key: the base offset and log end offset of a
write, and the error code. -/
structure PartitionWriteResult where
  baseOffset : Int64
  leo : Int64
  errorCode : ErrorCode
deriving DecidableEq, Repr

/-- `PartitionWriteResult::ok`. -/
def PartitionWriteResult.ok (baseOffset leo : Int64) : PartitionWriteResult := ⟨baseOffset, leo, .none⟩

/-- `PartitionWriteResult::error`: the offsets at their default. -/
def PartitionWriteResult.error (errorCode : ErrorCode) : PartitionWriteResult := ⟨0, 0, errorCode⟩

/-- `PartitionWriteResult::filtered`: no error, and the offsets at their default. -/
def PartitionWriteResult.filtered : PartitionWriteResult := ⟨0, 0, .none⟩

/-- The error codes `handle_produce_partition` gives the storage errors. -/
def StorageError.toErrorCode : StorageError → ErrorCode
  | .batchTooBig _ => .messageTooLarge
  | .batchExceededSegment _ _ => .messageTooLarge
  | .shortCircuited => .partitionShortCircuited
  | _ => .storageError

theorem StorageError.toErrorCode_ne_none (e : StorageError) : StorageError.toErrorCode e ≠ ErrorCode.none := by
  cases e <;> simp [StorageError.toErrorCode]

variable [Crc32c]

/-- `SharableReplicaStorage::write_record_set`: the base offset, which is the log end offset
before the write, the log end offset after it, and the bytes written. The record set comes back
with the base offsets the write gave its batches, as the `&mut` argument does. -/
def writeRecordSet (r : FileReplica) (records : RecordSet RawRecords) (hwUpdate : Bool) :
    Except Failure (Int64 × Int64 × Nat) × FileReplica × RecordSet RawRecords :=
  let baseOffset := r.getLeo
  match r.writeRecordset records hwUpdate with
  | (.ok bytesWritten, r', records') => (.ok (baseOffset, r'.getLeo, bytesWritten), r', records')
  | (.error f, r', records') => (.error f, r', records')

/-- `LeaderReplicaState::write_record_set` with no SmartModule, where `transform` leaves the
records as they are. `hwUpdate` is whether the leader is its only in-sync replica. -/
def leaderWriteRecordSet (r : FileReplica) (records : RecordSet RawRecords) (hwUpdate : Bool) :
    Except Failure (Int64 × Int64 × Nat) × FileReplica × RecordSet RawRecords :=
  if records.totalRecords = 0 then (.ok (r.hw, r.getLeo, 0), r, records)
  else writeRecordSet r records hwUpdate

/-- `handle_produce_partition` once the replica's spec is found: the result and the replica, or
the failure that ends the request, a panic or a write that does not return. -/
def handleProducePartition (r : FileReplica) (compression : CompressionAlgorithm) (hwUpdate : Bool)
    (records : RecordSet RawRecords) :
    Except Failure PartitionWriteResult × FileReplica × RecordSet RawRecords :=
  if !validateRecords records compression then (.ok (.error .compressionError), r, records)
  else
    match leaderWriteRecordSet r records hwUpdate with
    | (.ok (baseOffset, leo, _), r', records') => (.ok (.ok baseOffset leo), r', records')
    | (.error (.error e), r', records') => (.ok (.error (StorageError.toErrorCode e)), r', records')
    | (.error f, r', records') => (.error f, r', records')

/-- `handle_produce_topic` for partition requests that all go to the replica `r`, with no
SmartModule: each result with the record set as its write left it, which is what the log holds. -/
def handleProduceTopic (r : FileReplica) (compression : CompressionAlgorithm) (hwUpdate : Bool) :
    List (RecordSet RawRecords) → Except Failure (List (PartitionWriteResult × RecordSet RawRecords)) × FileReplica
  | [] => (.ok [], r)
  | records :: rest =>
    let written :=
      if records.totalRecords = 0 then (.ok .filtered, r, records)
      else handleProducePartition r compression hwUpdate records
    match written with
    | (.error f, r', _) => (.error f, r')
    | (.ok result, r', records') =>
      match handleProduceTopic r' compression hwUpdate rest with
      | (.ok results, r'') => (.ok ((result, records') :: results), r'')
      | (.error f, r'') => (.error f, r'')

end Write

/-! ### Successful writes -/

/-- Record sets written one after the other from the log end offset `leo`: where each starts,
and its batches with the base offsets they take. -/
def placeSets {R : Type} : Int64 → List (RecordSet R) → List (Int64 × RecordSet R)
  | _, [] => []
  | leo, records :: rest =>
    (leo, ⟨placeBatches leo records.batches⟩) :: placeSets (leo + Int64.ofNat records.totalRecords) rest

@[simp] theorem length_placeSets {R : Type} : ∀ (leo : Int64) (sets : List (RecordSet R)),
    (placeSets leo sets).length = sets.length
  | _, [] => rfl
  | leo, _ :: rest => by rw [placeSets, List.length_cons, length_placeSets, List.length_cons]

/-- The `i`-th record set starts where the ones before it end. -/
theorem getElem?_placeSets {R : Type} : ∀ (leo : Int64) (sets : List (RecordSet R)) (i : Nat),
    (placeSets leo sets)[i]? = sets[i]?.map fun records =>
      (leo + Int64.ofNat ((sets.take i).map RecordSet.totalRecords).sum,
        ⟨placeBatches (leo + Int64.ofNat ((sets.take i).map RecordSet.totalRecords).sum) records.batches⟩)
  | _, [], _ => rfl
  | leo, records :: rest, 0 => by simp [placeSets]
  | leo, records :: rest, i + 1 => by
    rw [placeSets, List.getElem?_cons_succ, getElem?_placeSets, List.getElem?_cons_succ, List.take_succ_cons,
      List.map_cons, List.sum_cons, Int64.ofNat_add, Int64.add_assoc]

section Ok

variable [Crc32c] {r r' : FileReplica} {compression : CompressionAlgorithm} {hwUpdate : Bool}

/-- A partition request with records whose result has no error code was written at the log end
offset. -/
theorem handleProducePartition_ok {records records' : RecordSet RawRecords} {result : PartitionWriteResult}
    (hne : records.totalRecords ≠ 0)
    (h : handleProducePartition r compression hwUpdate records = (.ok result, r', records'))
    (hnone : result.errorCode = .none) :
    result.baseOffset = r.getLeo ∧ records'.batches = placeBatches r.getLeo records.batches ∧
      r'.getLeo = r.getLeo + Int64.ofNat records.totalRecords := by
  unfold handleProducePartition leaderWriteRecordSet writeRecordSet at h
  split_ifs at h
  · cases h
    simp [PartitionWriteResult.error] at hnone
  cases hw : r.writeRecordset records hwUpdate with
  | mk res tail =>
    obtain ⟨r1, written⟩ := tail
    cases res with
    | ok total =>
      simp only [hw, Prod.mk.injEq, Except.ok.injEq] at h
      obtain ⟨rfl, rfl, rfl⟩ := h
      obtain ⟨hplaced, hleo, -⟩ := FileReplica.writeRecordset_ok hw
      exact ⟨rfl, hplaced, hleo⟩
    | error f =>
      cases f with
      | error e =>
        simp only [hw, Prod.mk.injEq, Except.ok.injEq] at h
        obtain ⟨rfl, -, -⟩ := h
        exact absurd hnone (StorageError.toErrorCode_ne_none e)
      | panic msg => simp [hw] at h
      | diverge => simp [hw] at h

/-- **A topic request whose partitions all succeed writes its record sets one after the other
from the log end offset**, and each response names where its record set starts. -/
theorem handleProduceTopic_ok :
    ∀ {r r' : FileReplica} {sets : List (RecordSet RawRecords)}
      {results : List (PartitionWriteResult × RecordSet RawRecords)},
      (∀ records ∈ sets, records.totalRecords ≠ 0) →
      handleProduceTopic r compression hwUpdate sets = (.ok results, r') →
      (∀ w ∈ results, w.1.errorCode = .none) →
      results.map (fun w => (w.1.baseOffset, w.2)) = placeSets r.getLeo sets ∧
        r'.getLeo = r.getLeo + Int64.ofNat (sets.map RecordSet.totalRecords).sum
  | r, r', [], results, _, h, _ => by
    simp only [handleProduceTopic, Prod.mk.injEq, Except.ok.injEq] at h
    obtain ⟨rfl, rfl⟩ := h
    simp [placeSets]
  | r, r', records :: rest, results, hne, h, hnone => by
    -- the first partition, then the induction hypothesis from the replica it leaves
    have hfirst := hne records List.mem_cons_self
    simp only [handleProduceTopic, hfirst, if_false] at h
    cases hp : handleProducePartition r compression hwUpdate records with
    | mk res tail =>
      obtain ⟨r1, written⟩ := tail
      cases res with
      | error f => simp [hp] at h
      | ok result =>
        cases hrest : handleProduceTopic r1 compression hwUpdate rest with
        | mk res' r2 =>
          cases res' with
          | error f => simp [hp, hrest] at h
          | ok results' =>
            simp only [hp, hrest, Prod.mk.injEq, Except.ok.injEq] at h
            obtain ⟨rfl, rfl⟩ := h
            obtain ⟨hbase, hplaced, hleo⟩ :=
              handleProducePartition_ok hfirst hp (hnone _ List.mem_cons_self)
            obtain ⟨ih, ihleo⟩ := handleProduceTopic_ok (fun x hx => hne x (List.mem_cons_of_mem _ hx)) hrest
              (fun w hw => hnone w (List.mem_cons_of_mem _ hw))
            refine ⟨?_, ?_⟩
            · rw [List.map_cons, ih, hleo, hbase, placeSets, ← hplaced]
            · rw [ihleo, hleo, List.map_cons, List.sum_cons, Int64.ofNat_add, Int64.add_assoc]

end Ok

end Fluvio.Spu
