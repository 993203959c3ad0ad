import Fluvio.Storage.OffsetLookup
import Fluvio.Spu.Produce
import Fluvio.Protocol.Malformed
import Fluvio.Lib.Trace

/-!
Mirroring of a partition between a remote cluster and its home (`fluvio-spu/src/mirroring`): the
source's loop (`sync_mirror_loop` of the remote controller, `respond_as_source` of the home), the
target's (`sync_mirror_as_target`, `respond_as_target`), and the connection between them, which
may lose and reorder messages and reconnect.

The source keeps the target's last reported log end offset. When its own offsets move, or the
target reports that it is behind, it reads from that offset with `read_records` and sends the file
slice: from the batch that holds the offset, cut at `max_bytes` wherever that falls. The target
decodes the request, writes the record set when its first batch starts at its own log end offset
(`append_record_set`), and reports its offsets back.

* `MirrorState.reachable_alignedWrites` — in every run the target changes only by writes of record
  sets that have records and start at its log end offset.
* `MirrorState.sendRecords_cut` — on either link, for a source whose log was built by appends and a
  target at the start of one of its batches: when `max_bytes` ends inside that batch's raw records,
  the source sends the batch cut there and the target writes it as it came
  (`MirrorState.receiveRecords_cut`); a successful write moves its log end offset past every record
  of the whole batch.
* `twoRecords_mirrored_cut` — from an empty source and target, with `max_bytes` of 70, a batch of
  two records reaches the target without its second record; the loops then rest with both log end
  offsets at 2 and the target's log not a prefix of the source's.
-/

namespace Fluvio.Protocol

/-- `RecordSet::base_offset`: the first batch's base offset, or `-1`. -/
def RecordSet.baseOffset {R : Type} (rs : RecordSet R) : Int64 :=
  match rs.batches with
  | b :: _ => b.baseOffset
  | [] => -1

end Fluvio.Protocol

namespace Fluvio.Spu

open Protocol Storage Cursor

/-! ### The source's read -/

/-- The source's leader replica, whose log is its active segment: `prev_segments` holds nothing. -/
structure SourceReplica where
  active : IndexedSegment
  hw : Int64
deriving DecidableEq, Repr

/-- `get_leo`. -/
def SourceReplica.getLeo (r : SourceReplica) : Int64 := r.active.segment.endOffset

/-- `get_log_start_offset`: with no previous segment, the active segment's base. -/
def SourceReplica.getLogStartOffset (r : SourceReplica) : Int64 := r.active.segment.baseOffset

/-- The source's log file. -/
def SourceReplica.bytes (r : SourceReplica) : List UInt8 := r.active.segment.msgLog.bytes

/-- `ReplicaSlice`: the offsets `read_records` saw, and the slice it read. -/
structure ReplicaSlice where
  start : Int64
  hw : Int64
  leo : Int64
  fileSlice : Option FileSlice
deriving DecidableEq, Repr

/-- The `ErrorCode`s of `read_records`. -/
inductive ReadRecordsError
  | other (msg : String)
  | offsetEvicted (offset nextAvailable : Int64)
deriving DecidableEq, Repr

/-- The `Display` of these codes. -/
def ReadRecordsError.message : ReadRecordsError → String
  | .other msg => "Other error: " ++ msg
  | .offsetEvicted offset nextAvailable =>
    "Offset " ++ toString offset ++ " is evicted. The next available is " ++ toString nextAvailable

/-- `FileReplica::read_records`: the slice `records_slice` gives from the batch that holds
`start_offset`, no longer than `max_len`. An offset below the active segment is looked for in the
previous segments, and is evicted. The messages leave out the debug dumps of the source's. -/
def SourceReplica.readRecords (r : SourceReplica) (startOffset : Int64) (maxOffset : Option Int64)
    (maxLen : UInt32) : Except ReadRecordsError ReplicaSlice :=
  let slice : ReplicaSlice := ⟨r.getLogStartOffset, r.hw, r.getLeo, none⟩
  if r.active.segment.baseOffset ≤ startOffset then
    if startOffset = r.getLeo then .ok slice
    else if r.getLeo < startOffset then
      .error (.other ("start offset: " ++ toString startOffset ++ " is greater than leo: " ++ toString r.getLeo))
    else
      match r.active.toSegment.recordsSlice startOffset maxOffset with
      | .error (.other msg) => .error (.other msg)
      | .ok none => .error (.other ("no records found in active replica, start: " ++ toString startOffset))
      | .ok (some fileSlice) =>
        .ok { slice with fileSlice := some ⟨fileSlice.position, min fileSlice.len maxLen.toNat⟩ }
  else .error (.offsetEvicted startOffset r.getLogStartOffset)

/-! ### The messages -/

/-- `MirrorPartitionSyncRequest<R>`: the source's offsets and the records. -/
structure MirrorPartitionSyncRequest (R : Type) where
  hw : Int64
  leo : Int64
  records : R
deriving DecidableEq, Repr

/-- The bytes `encode_file_slices` sends for a `RemoteFilePartitionSyncRequest` (`file_encode`):
`hw`, `leo`, the slice's length `as i32`, and the slice of the log file. -/
def MirrorPartitionSyncRequest.fileEncode (req : MirrorPartitionSyncRequest FileSlice) (file : List UInt8) :
    List UInt8 :=
  i64Width.put req.hw ++ i64Width.put req.leo ++ i32Width.put (Int32.ofNat req.records.len) ++
    (file.drop req.records.position).take req.records.len

/-- The derived `Decoder` of `MirrorPartitionSyncRequest<R>`: the fields in order. -/
def MirrorPartitionSyncRequest.decode {R : Type} [Decoder R] : Decode (MirrorPartitionSyncRequest R) := do
  let hw ← (Decoder.decode : Decode Int64)
  let leo ← (Decoder.decode : Decode Int64)
  let records ← (Decoder.decode : Decode R)
  pure ⟨hw, leo, records⟩

/-- `UpdateHomeOffsetRequest` and `UpdateRemoteOffsetRequest`, without the replica's name, which is
only logged. -/
structure UpdateOffsetRequest where
  leo : Int64
  hw : Int64
deriving DecidableEq, Repr

/-- The report `send_offsets_to_remote` and `send_offsets_to_home_as_target` make of the target. -/
def UpdateOffsetRequest.ofReplica (r : FileReplica) : UpdateOffsetRequest := ⟨r.getLeo, r.hw⟩

/-! ### The source -/

/-- `geneate_remote_record_as_source` and `generate_home_records_as_source`, which differ only in
`max_bytes`, both reading uncommitted records: nothing when the target has caught up, the records
from the target's log end offset when it is behind, an error when it is ahead. -/
def generateRecordsAsSource (leader : SourceReplica) (maxBytes : UInt32) (targetLeo : Int64) :
    Except String (Option (MirrorPartitionSyncRequest FileSlice)) :=
  if leader.getLeo = targetLeo then .ok none
  else
    -- `..Default::default()`: an empty slice
    let partitionResponse : MirrorPartitionSyncRequest FileSlice := ⟨leader.hw, leader.getLeo, ⟨0, 0⟩⟩
    if targetLeo < leader.getLeo then
      match leader.readRecords targetLeo none maxBytes with
      | .ok slice =>
        match slice.fileSlice with
        | some fileSlice => .ok (some { partitionResponse with records := fileSlice })
        | none => .ok (some partitionResponse)
      | .error err => .error ("error reading records: " ++ err.message)
    else .error "leader has more records than home, this should not happen"

/-- `MirrorRemoteToHomeController::geneate_remote_record_as_source`, with the controller's
`max_bytes`. -/
def geneateRemoteRecordAsSource (leader : SourceReplica) (maxBytes : UInt32) (homeLeo : Int64) :
    Except String (Option (MirrorPartitionSyncRequest FileSlice)) :=
  generateRecordsAsSource leader maxBytes homeLeo

/-- `MirrorHomeHandler::generate_home_records_as_source`: `MAX_BYTES` is 1 MiB. -/
def generateHomeRecordsAsSource (leader : SourceReplica) (remoteLeo : Int64) :
    Except String (Option (MirrorPartitionSyncRequest FileSlice)) :=
  generateRecordsAsSource leader (1024 * 1024) remoteLeo

/-- `update_from_home_as_source` and `update_from_remote`: from the source's log end offset, the
target's it kept (negative while unknown) and the one reported, whether the target needs records,
and the target's log end offset kept afterwards, also when the report is refused. -/
def updateFromTarget (message : Int64 → Int64 → String) (leaderLeo oldLeo newLeo : Int64) :
    Except String Bool × Int64 :=
  -- an unknown offset is replaced before the comparison
  let kept := if oldLeo < 0 then newLeo else oldLeo
  if leaderLeo < newLeo then (.error (message newLeo leaderLeo), kept)
  else if newLeo < leaderLeo then (.ok true, newLeo)
  else (.ok false, kept)

/-- `MirrorRemoteToHomeController::update_from_home_as_source`. -/
def updateFromHomeAsSource (leaderLeo oldHomeLeo newHomeLeo : Int64) : Except String Bool × Int64 :=
  updateFromTarget (fun newLeo leaderLeo => "home's leo: " ++ toString newLeo ++ " > leader's leo: " ++
    toString leaderLeo ++ " this should not happen since this is target, this is error")
    leaderLeo oldHomeLeo newHomeLeo

/-- `MirrorHomeHandler::update_from_remote`. -/
def updateFromRemote (leaderLeo oldRemoteLeo newRemoteLeo : Int64) : Except String Bool × Int64 :=
  updateFromTarget (fun newLeo leaderLeo => "remote's leo: " ++ toString newLeo ++ " > leader's leo: " ++
    toString leaderLeo ++ " this should not happen, this is error")
    leaderLeo oldRemoteLeo newRemoteLeo

/-! ### The mirror loop -/

/-- One direction of a mirror: how the source reads for the target and takes its reports, and
whether the target is its partition's only in-sync replica. -/
structure MirrorLink where
  generate : SourceReplica → Int64 → Except String (Option (MirrorPartitionSyncRequest FileSlice))
  updateFromTarget : Int64 → Int64 → Int64 → Except String Bool × Int64
  hwUpdate : Bool

/-- The remote as source, with the controller's `max_bytes`; the home as target. -/
def remoteToHome (maxBytes : UInt32) (hwUpdate : Bool) : MirrorLink :=
  ⟨fun leader => geneateRemoteRecordAsSource leader maxBytes, updateFromHomeAsSource, hwUpdate⟩

/-- The home as source; the remote as target. -/
def homeToRemote (hwUpdate : Bool) : MirrorLink :=
  ⟨generateHomeRecordsAsSource, updateFromRemote, hwUpdate⟩

/-- The two loops of a mirror and the connection between them. -/
structure MirrorState where
  source : SourceReplica
  /-- the source's `home_leo` or `remote_leo` metric, `-1` until known; it outlives connections -/
  targetLeo : Int64
  /-- `home_updated_needed` or `remote_updated_needed` of the current connection -/
  updateNeeded : Bool
  target : FileReplica
  /-- the sync requests in flight, as their bytes -/
  toTarget : List (List UInt8)
  /-- the offset reports in flight -/
  toSource : List UpdateOffsetRequest

/-- A source and a target before the first connection. -/
def MirrorState.init (source : SourceReplica) (target : FileReplica) : MirrorState :=
  ⟨source, -1, false, target, [], []⟩

/-- The connection closes and the next one starts: what was in flight is lost, and the source's
new loop starts with its flag down. -/
def MirrorState.restart (s : MirrorState) : MirrorState :=
  { s with toTarget := [], toSource := [], updateNeeded := false }

/-- No message in flight and no update pending. -/
def MirrorState.Quiescent (s : MirrorState) : Prop :=
  s.toTarget = [] ∧ s.toSource = [] ∧ s.updateNeeded = false

instance (s : MirrorState) : Decidable s.Quiescent := inferInstanceAs (Decidable (_ ∧ _ ∧ _))

/-- What can happen next. -/
inductive MirrorEvent
  /-- a producer's batch is written to the source, and its offset listener fires -/
  | produce (batch : Batch RawRecords)
  /-- the source's loop, with its flag up and the target's offset known, sends what the target lacks -/
  | sendRecords
  /-- the target reports its offsets: when its loop starts, and on its timer -/
  | sendOffsets
  /-- the source takes the `i`-th report in flight -/
  | receiveOffsets (i : Nat)
  /-- the target takes the `i`-th sync request in flight -/
  | receiveRecords (i : Nat)
  | dropRecords (i : Nat)
  | dropOffsets (i : Nat)
  /-- the connection fails -/
  | reconnect
deriving DecidableEq, Repr

section Loop

variable [Crc32c]

/-- `LeaderReplicaState::append_record_set`: a record set with records whose first batch starts at
the log end offset goes to `write_record_set`; any other is refused with `false`. -/
def appendRecordSet (r : FileReplica) (records : RecordSet RawRecords) (hwUpdate : Bool) :
    Except Failure Bool × FileReplica :=
  if records.totalRecords = 0 then (.ok false, r)
  else if records.baseOffset ≠ r.getLeo then (.ok false, r)
  else
    match leaderWriteRecordSet r records hwUpdate with
    | (.ok _, r', _) => (.ok true, r')
    | (.error f, r', _) => (.error f, r')

/-- One step of the mirror; `none` when the event cannot happen. An error in either loop ends the
connection, and the next one starts. -/
def MirrorState.next (link : MirrorLink) (s : MirrorState) : MirrorEvent → Option MirrorState
  | .produce batch =>
    -- the leader is its partition's only in-sync replica: its high watermark follows
    match s.source.active.appendBatch batch with
    | (.ok true, active, _) =>
      some { s with source := ⟨active, active.segment.endOffset⟩, updateNeeded := true }
    | _ => none
  | .sendRecords =>
    if s.updateNeeded ∧ 0 ≤ s.targetLeo then
      match link.generate s.source s.targetLeo with
      | .ok none => some { s with updateNeeded := false }
      | .ok (some req) =>
        some { s with toTarget := s.toTarget ++ [req.fileEncode s.source.bytes], updateNeeded := false }
      | .error _ => some s.restart
    else none
  | .sendOffsets => some { s with toSource := s.toSource ++ [.ofReplica s.target] }
  | .receiveOffsets i =>
    match s.toSource[i]? with
    | none => none
    | some req =>
      -- the flag is overwritten by the answer
      match link.updateFromTarget s.source.getLeo s.targetLeo req.leo with
      | (.ok needed, kept) =>
        some { s with toSource := s.toSource.eraseIdx i, updateNeeded := needed, targetLeo := kept }
      | (.error _, kept) => some { s.restart with targetLeo := kept }
  | .receiveRecords i =>
    match s.toTarget[i]? with
    | none => none
    | some bytes =>
      match (MirrorPartitionSyncRequest.decode : Decode (MirrorPartitionSyncRequest (RecordSet RawRecords))) bytes with
      | .error _ _ => some s.restart
      | .ok req _ =>
        -- the target reports its offsets after every append, refused or not
        match appendRecordSet s.target req.records link.hwUpdate with
        | (.ok _, target) =>
          some { s with toTarget := s.toTarget.eraseIdx i, target := target,
                        toSource := s.toSource ++ [.ofReplica target] }
        | (.error _, target) => some { s.restart with target := target }
  | .dropRecords i => if i < s.toTarget.length then some { s with toTarget := s.toTarget.eraseIdx i } else none
  | .dropOffsets i => if i < s.toSource.length then some { s with toSource := s.toSource.eraseIdx i } else none
  | .reconnect => some s.restart

/-- The writes the target takes: record sets with records whose first batch starts at its log end
offset, through `write_recordset`, whatever comes of them. -/
inductive AlignedWrites (hwUpdate : Bool) (r : FileReplica) : FileReplica → Prop
  | refl : AlignedWrites hwUpdate r r
  | write {r' : FileReplica} {records : RecordSet RawRecords} :
    AlignedWrites hwUpdate r r' → records.totalRecords ≠ 0 → records.baseOffset = r'.getLeo →
    AlignedWrites hwUpdate r (r'.writeRecordset records hwUpdate).2.1

end Loop

/-! ### What the target writes -/

@[simp] theorem RecordSet.baseOffset_cons {R : Type} (b : Batch R) (rest : List (Batch R)) :
    RecordSet.baseOffset ⟨b :: rest⟩ = b.baseOffset := rfl

/-- The request's offsets, then the records as their decoder reads them. -/
theorem MirrorPartitionSyncRequest.decode_fields {R : Type} [Decoder R] (hw leo : Int64) {s rest : List UInt8}
    {records : R} (h : (Decoder.decode : Decode R) s = .ok records rest) :
    MirrorPartitionSyncRequest.decode (i64Width.put hw ++ i64Width.put leo ++ s) = .ok ⟨hw, leo, records⟩ rest := by
  have hhw : (Decoder.decode : Decode Int64) (i64Width.put hw ++ (i64Width.put leo ++ s)) =
      .ok hw (i64Width.put leo ++ s) := FixedWidth.get_put_apply _ _ _ _
  have hleo : (Decoder.decode : Decode Int64) (i64Width.put leo ++ s) = .ok leo s := FixedWidth.get_put_apply _ _ _ _
  simp only [MirrorPartitionSyncRequest.decode, bind_apply, List.append_assoc, hhw, Result.andThen_ok, hleo, h]
  rfl

section Target

variable [Crc32c] {r : FileReplica} {records : RecordSet RawRecords} {hwUpdate : Bool}

theorem appendRecordSet_refused (h : records.totalRecords = 0 ∨ records.baseOffset ≠ r.getLeo) :
    appendRecordSet r records hwUpdate = (.ok false, r) := by
  unfold appendRecordSet
  rcases h with h | h
  · rw [if_pos h]
  · by_cases h0 : records.totalRecords = 0
    · rw [if_pos h0]
    · rw [if_neg h0, if_pos h]

/-- A record set that `append_record_set` takes goes to the storage's `write_recordset`. -/
theorem appendRecordSet_written (htotal : records.totalRecords ≠ 0) (hbase : records.baseOffset = r.getLeo) :
    (appendRecordSet r records hwUpdate).2 = (r.writeRecordset records hwUpdate).2.1 := by
  unfold appendRecordSet leaderWriteRecordSet writeRecordSet
  rw [if_neg htotal, if_neg (not_not.mpr hbase), if_neg htotal]
  rcases r.writeRecordset records hwUpdate with ⟨res, r', records'⟩
  cases res <;> rfl

/-- **What `append_record_set` does to the target**: nothing, or the storage's write of a record set
with records that starts at the log end offset. -/
theorem appendRecordSet_cases (r : FileReplica) (records : RecordSet RawRecords) (hwUpdate : Bool) :
    (appendRecordSet r records hwUpdate).2 = r ∨
      (records.totalRecords ≠ 0 ∧ records.baseOffset = r.getLeo ∧
        (appendRecordSet r records hwUpdate).2 = (r.writeRecordset records hwUpdate).2.1) := by
  by_cases h : records.totalRecords ≠ 0 ∧ records.baseOffset = r.getLeo
  · exact .inr ⟨h.1, h.2, appendRecordSet_written h.1 h.2⟩
  · left
    rw [appendRecordSet_refused (by tauto)]

/-- A batch of raw records is encoded as its file header, its schema id when flagged, and the records. -/
theorem length_encode_raw {b : Batch RawRecords} {bb : List UInt8} (h : Encoder.encode b = some bb) :
    bb.length = batchFileHeaderSize + b.records.bytes.length + b.schemaBytes.length := by
  have hlen := Batch.encode_length_eq (RawRecords.sizeAgrees b.records)
  rw [h, (rfl : Encoder.writeSize b = some (batchFileHeaderSize + b.records.bytes.length))] at hlen
  exact Option.some.inj hlen

/-- A slice of a log file that starts at a batch's encoding and ends inside its raw records, sent
after its length as `i32`, is read by the record-set decoder as that batch, under its base offset
and last offset delta, with the records before the cut. -/
theorem decode_fileSlice_cut {b : Batch RawRecords} {j : Nat} {bb rest file : List UInt8}
    {slice : FileSlice} (henc : Encoder.encode b = some bb) (hfile : file.drop slice.position = bb ++ rest)
    (hlen : slice.len = batchFileHeaderSize + b.schemaBytes.length + j)
    (hj : 0 < j) (hjlt : j < b.records.bytes.length)
    (hfit : batchFileHeaderSize + b.records.bytes.length + b.schemaBytes.length < 2 ^ 31) :
    ∃ cut : Batch RawRecords, cut.baseOffset = b.baseOffset ∧
      cut.header.lastOffsetDelta = b.header.lastOffsetDelta ∧ cut.records = (⟨b.records.bytes.take j⟩ : RawRecords) ∧
      (RecordSet.decode : Decode (RecordSet RawRecords))
        (i32Width.put (Int32.ofNat slice.len) ++ (file.drop slice.position).take slice.len) = .ok ⟨[cut]⟩ [] := by
  obtain ⟨bb', crc, henc', hdec⟩ := RecordSet.decode_cut_raw hj hjlt hfit
  rw [henc, Option.some.injEq] at henc'
  subst henc'
  have hbb : batchFileHeaderSize + b.schemaBytes.length + j ≤ bb.length := by
    rw [length_encode_raw henc]
    omega
  refine ⟨b.decodedHead crc b.records.bytes.length (⟨b.records.bytes.take j⟩ : RawRecords), rfl, rfl, rfl, ?_⟩
  rw [hfile, hlen, List.take_append_of_le_length hbb]
  exact hdec

/-- The same slice in a sync request: the source's offsets, then the cut batch. -/
theorem syncRequest_decode_cut {b : Batch RawRecords} {j : Nat} {bb rest file : List UInt8}
    {req : MirrorPartitionSyncRequest FileSlice} (henc : Encoder.encode b = some bb)
    (hfile : file.drop req.records.position = bb ++ rest)
    (hlen : req.records.len = batchFileHeaderSize + b.schemaBytes.length + j)
    (hj : 0 < j) (hjlt : j < b.records.bytes.length)
    (hfit : batchFileHeaderSize + b.records.bytes.length + b.schemaBytes.length < 2 ^ 31) :
    ∃ cut : Batch RawRecords, cut.baseOffset = b.baseOffset ∧
      cut.header.lastOffsetDelta = b.header.lastOffsetDelta ∧ cut.records = (⟨b.records.bytes.take j⟩ : RawRecords) ∧
      MirrorPartitionSyncRequest.decode (R := RecordSet RawRecords) (req.fileEncode file) =
        .ok ⟨req.hw, req.leo, ⟨[cut]⟩⟩ [] := by
  obtain ⟨cut, hbase, hlod, hrecords, hdec⟩ := decode_fileSlice_cut henc hfile hlen hj hjlt hfit
  refine ⟨cut, hbase, hlod, hrecords, ?_⟩
  rw [MirrorPartitionSyncRequest.fileEncode, List.append_assoc]
  exact MirrorPartitionSyncRequest.decode_fields req.hw req.leo hdec

end Target

/-! ### What the source sends -/

section Source

variable [Crc32c] {r : SourceReplica} {base : Int64} {chunks : List (List UInt8)}
  {placed : List (Batch RawRecords)} {S L : Nat}

/-- The batches of the source's log lie one after the other up to its log end offset. -/
theorem SourceReplica.layout (hinv : r.active.Inv base chunks placed S L) :
    Layout base.toInt (placed.map Batch.span) r.getLeo.toInt := by
  rw [SourceReplica.getLeo, hinv.endOffset]
  exact hinv.layout

/-- Each batch of the source's log starts at or above the base, has records, and ends below the log
end offset. -/
theorem SourceReplica.batch_inside (hinv : r.active.Inv base chunks placed S L) {k : Nat}
    (hk : k < placed.length) :
    base.toInt ≤ placed[k].baseOffset.toInt ∧ placed[k].recordsLen ≠ 0 ∧
      placed[k].baseOffset.toInt < r.getLeo.toInt := by
  obtain ⟨hlo, hlod, hhi⟩ := (SourceReplica.layout hinv).mem _ (List.getElem_mem (by simpa using hk))
  simp only [List.getElem_map, Batch.span] at hlo hlod hhi
  have hrecords : placed[k].recordsLen ≠ 0 := by
    have hnneg : ¬ placed[k].header.lastOffsetDelta < 0 := by
      rw [Int32.lt_iff_toInt_lt]
      simpa using hlod
    simp [Batch.recordsLen, hnneg]
  exact ⟨hlo, hrecords, by omega⟩

/-- **Reading from the start of a batch**: the slice starts at the batch's encoding and runs to the
end of the log, or for `max_len` bytes. -/
theorem SourceReplica.readRecords_batch (hinv : r.active.Inv base chunks placed S L) (hbase : 0 ≤ base.toInt)
    (hF : r.bytes.length < 2 ^ 32) {k : Nat} (hk : k < placed.length) (maxLen : UInt32) :
    r.readRecords placed[k].baseOffset none maxLen = .ok ⟨r.getLogStartOffset, r.hw, r.getLeo,
      some ⟨(chunks.take k).flatten.length, min (chunks.drop k).flatten.length maxLen.toNat⟩⟩ := by
  obtain ⟨hlo, -, hhi⟩ := SourceReplica.batch_inside hinv hk
  have hge : r.active.segment.baseOffset ≤ placed[k].baseOffset := by
    rw [hinv.baseOffset, Int64.le_iff_toInt_le]
    exact hlo
  have hne : placed[k].baseOffset ≠ r.getLeo := by
    intro h
    rw [h] at hhi
    omega
  have hnlt : ¬ r.getLeo < placed[k].baseOffset := by
    rw [Int64.lt_iff_toInt_lt]
    omega
  obtain ⟨p, hfind, hpos⟩ := hinv.findOffsetPosition_baseOffset RawRecords.sizeAgrees hbase hk
  -- the slice runs to the end of the file
  have hfile : r.bytes.length = (chunks.take k).flatten.length + (chunks.drop k).flatten.length := by
    rw [SourceReplica.bytes, hinv.bytes, ← List.length_append, ← List.flatten_append, List.take_append_drop]
  have hlen : (r.bytes.length + 2 ^ 32 - (chunks.take k).flatten.length) % 2 ^ 32 = (chunks.drop k).flatten.length := by
    rw [hfile] at hF ⊢
    have hsub : (chunks.take k).flatten.length + (chunks.drop k).flatten.length + 2 ^ 32 -
        (chunks.take k).flatten.length = (chunks.drop k).flatten.length + 2 ^ 32 := by
      omega
    rw [hsub, Nat.add_mod_right, Nat.mod_eq_of_lt (by omega)]
  simp only [SourceReplica.readRecords, if_pos hge, if_neg hne, if_neg hnlt, Segment.recordsSlice, hfind, hpos]
  simp only [FileRecords.asFileSlice, IndexedSegment.toSegment, Except.mapError, Except.map]
  rw [← SourceReplica.bytes, hlen]

/-- The sync request for a target at the start of a batch: the source's offsets, and the slice from
that batch's encoding. -/
theorem generateRecordsAsSource_batch (hinv : r.active.Inv base chunks placed S L) (hbase : 0 ≤ base.toInt)
    (hF : r.bytes.length < 2 ^ 32) {k : Nat} (hk : k < placed.length) (maxBytes : UInt32) :
    generateRecordsAsSource r maxBytes placed[k].baseOffset = .ok (some ⟨r.hw, r.getLeo,
      ⟨(chunks.take k).flatten.length, min (chunks.drop k).flatten.length maxBytes.toNat⟩⟩) := by
  obtain ⟨-, -, hhi⟩ := SourceReplica.batch_inside hinv hk
  have hne : r.getLeo ≠ placed[k].baseOffset := by
    intro h
    rw [h] at hhi
    omega
  have hlt : placed[k].baseOffset < r.getLeo := Int64.lt_iff_toInt_lt.mpr hhi
  rw [generateRecordsAsSource, if_neg hne, if_pos hlt, SourceReplica.readRecords_batch hinv hbase hF hk]

end Source

/-! ### Runs -/

section Runs

variable [Crc32c] {link : MirrorLink} {s s' : MirrorState}

/-- A sync request the target decodes leaves it as `append_record_set` does. -/
theorem MirrorState.next_receiveRecords {i : Nat} {bytes rest : List UInt8}
    {req : MirrorPartitionSyncRequest (RecordSet RawRecords)} (hi : s.toTarget[i]? = some bytes)
    (hdec : MirrorPartitionSyncRequest.decode bytes = .ok req rest) :
    (s.next link (.receiveRecords i)).map MirrorState.target =
      some (appendRecordSet s.target req.records link.hwUpdate).2 := by
  simp only [MirrorState.next, hi, hdec]
  split <;> rename_i heq <;> simp [heq]

/-- **One step changes the target only by an aligned write.** -/
theorem MirrorState.next_target {e : MirrorEvent} (h : s.next link e = some s') :
    s'.target = s.target ∨
      ∃ records : RecordSet RawRecords, records.totalRecords ≠ 0 ∧ records.baseOffset = s.target.getLeo ∧
        s'.target = (s.target.writeRecordset records link.hwUpdate).2.1 := by
  cases e with
  | produce batch =>
    simp only [MirrorState.next] at h
    split at h <;> cases h
    exact .inl rfl
  | sendRecords =>
    simp only [MirrorState.next] at h
    split_ifs at h
    split at h <;> cases h <;> exact .inl rfl
  | sendOffsets =>
    cases h
    exact .inl rfl
  | receiveOffsets i =>
    simp only [MirrorState.next] at h
    split at h
    · cases h
    · split at h <;> cases h <;> exact .inl rfl
  | receiveRecords i =>
    -- the only event that writes: a request the target decodes
    cases hi : s.toTarget[i]? with
    | none => simp [MirrorState.next, hi] at h
    | some bytes =>
      cases hdec : (MirrorPartitionSyncRequest.decode bytes : Result DecodeError (MirrorPartitionSyncRequest (RecordSet RawRecords))) with
      | error err rest =>
        simp only [MirrorState.next, hi, hdec, Option.some.injEq] at h
        rw [← h]
        exact .inl rfl
      | ok req rest =>
        have htarget : (s.next link (.receiveRecords i)).map MirrorState.target =
            some (appendRecordSet s.target req.records link.hwUpdate).2 := MirrorState.next_receiveRecords hi hdec
        rw [h, Option.map_some, Option.some.injEq] at htarget
        rcases appendRecordSet_cases s.target req.records link.hwUpdate with heq | ⟨hne, hbase, hw⟩
        · exact .inl (htarget.trans heq)
        · exact .inr ⟨req.records, hne, hbase, htarget.trans hw⟩
  | dropRecords i =>
    simp only [MirrorState.next] at h
    split_ifs at h
    cases h
    exact .inl rfl
  | dropOffsets i =>
    simp only [MirrorState.next] at h
    split_ifs at h
    cases h
    exact .inl rfl
  | reconnect =>
    cases h
    exact .inl rfl

/-- **Nothing else writes to the target**: along every run, whatever is lost, reordered or
reconnected, the target is its first replica after a sequence of aligned writes. -/
theorem MirrorState.reachable_alignedWrites {source : SourceReplica} {target : FileReplica}
    (h : Trace.Reachable (MirrorState.next link) (.init source target) s) :
    AlignedWrites link.hwUpdate target s.target :=
  h.invariant (P := fun s => AlignedWrites link.hwUpdate target s.target) .refl fun s _ s' hs hnext => by
    rcases MirrorState.next_target hnext with heq | ⟨records, hne, hbase, hw⟩
    · rw [heq]
      exact hs
    · rw [hw]
      exact .write hs hne hbase

/-- **A sync request cut inside a batch's records is written as if it held the whole batch.** When
the target takes a request whose slice starts at the encoding of a batch at its log end offset and
ends inside the batch's raw records, it writes that batch with its records cut short; a successful
write moves its log end offset past every record the batch's header announces. -/
theorem MirrorState.receiveRecords_cut {i j : Nat} {b : Batch RawRecords} {bb rest file : List UInt8}
    {req : MirrorPartitionSyncRequest FileSlice} (hi : s.toTarget[i]? = some (req.fileEncode file))
    (henc : Encoder.encode b = some bb) (hfile : file.drop req.records.position = bb ++ rest)
    (hlen : req.records.len = batchFileHeaderSize + b.schemaBytes.length + j)
    (hj : 0 < j) (hjlt : j < b.records.bytes.length)
    (hfit : batchFileHeaderSize + b.records.bytes.length + b.schemaBytes.length < 2 ^ 31)
    (hleo : b.baseOffset = s.target.getLeo) (hne : b.recordsLen ≠ 0) :
    ∃ cut : Batch RawRecords, cut.baseOffset = b.baseOffset ∧
      cut.header.lastOffsetDelta = b.header.lastOffsetDelta ∧ cut.records = (⟨b.records.bytes.take j⟩ : RawRecords) ∧
      (s.next link (.receiveRecords i)).map MirrorState.target =
        some (s.target.writeRecordset ⟨[cut]⟩ link.hwUpdate).2.1 ∧
      ∀ total r' written, s.target.writeRecordset ⟨[cut]⟩ link.hwUpdate = (.ok total, r', written) →
        r'.getLeo = s.target.getLeo + Int64.ofNat b.recordsLen ∧ written.batches = [cut] := by
  obtain ⟨cut, hbase, hlod, hrecords, hdec⟩ := syncRequest_decode_cut henc hfile hlen hj hjlt hfit
  -- the cut batch announces the records of the whole one
  have hcount : cut.recordsLen = b.recordsLen := by
    simp only [Batch.recordsLen, hlod]
  have htotal : (⟨[cut]⟩ : RecordSet RawRecords).totalRecords = b.recordsLen := by
    simp [RecordSet.totalRecords, hcount]
  have hstart : (⟨[cut]⟩ : RecordSet RawRecords).baseOffset = s.target.getLeo := hbase.trans hleo
  refine ⟨cut, hbase, hlod, hrecords, ?_, fun total r' written hw => ?_⟩
  · rw [MirrorState.next_receiveRecords hi hdec, appendRecordSet_written (by rw [htotal]; exact hne) hstart]
  · obtain ⟨hplaced, hleo', -⟩ := FileReplica.writeRecordset_ok hw
    refine ⟨by rw [hleo', htotal], ?_⟩
    rw [hplaced, placeBatches, placeBatches, ← hstart]
    rfl

/-- **The source sends a batch cut at `max_bytes`, and the target writes it as the whole batch.** On
either link, take a source whose log was built by appends from a non-negative base, and a target at
the start of one of its batches, which the source knows. When `max_bytes` ends inside that batch's
raw records, the source's next sync request carries the batch cut there. When the target takes the
request, it writes the cut batch; a successful write moves its log end offset past every record of
the whole batch. -/
theorem MirrorState.sendRecords_cut {maxBytes : UInt32}
    (hgen : link.generate = fun leader => generateRecordsAsSource leader maxBytes)
    {base : Int64} {chunks : List (List UInt8)} {placed : List (Batch RawRecords)} {S L : Nat}
    (hinv : s.source.active.Inv base chunks placed S L) (hbase : 0 ≤ base.toInt)
    (hF : s.source.bytes.length < 2 ^ 32) (hflag : s.updateNeeded = true) {k : Nat} (hk : k < placed.length)
    (hknown : s.targetLeo = placed[k].baseOffset) (hleo : s.target.getLeo = placed[k].baseOffset)
    {j : Nat} (hcut : maxBytes.toNat = batchFileHeaderSize + placed[k].schemaBytes.length + j)
    (hj : 0 < j) (hjlt : j < placed[k].records.bytes.length) :
    ∃ s₁, s.next link .sendRecords = some s₁ ∧ s₁.target = s.target ∧
      ∃ cut : Batch RawRecords, cut.baseOffset = placed[k].baseOffset ∧
        cut.header.lastOffsetDelta = placed[k].header.lastOffsetDelta ∧
        cut.records = (⟨placed[k].records.bytes.take j⟩ : RawRecords) ∧
        (s₁.next link (.receiveRecords s.toTarget.length)).map MirrorState.target =
          some (s.target.writeRecordset ⟨[cut]⟩ link.hwUpdate).2.1 ∧
        ∀ total r' written, s.target.writeRecordset ⟨[cut]⟩ link.hwUpdate = (.ok total, r', written) →
          r'.getLeo = s.target.getLeo + Int64.ofNat placed[k].recordsLen ∧ written.batches = [cut] := by
  obtain ⟨hlo, hrecords, -⟩ := SourceReplica.batch_inside hinv hk
  have hkc : k < chunks.length := by
    rw [hinv.encodes.length_eq]
    exact hk
  have henc : Encoder.encode placed[k] = some chunks[k] := hinv.encodes.get hkc hk
  have hsmall := hinv.small chunks[k] (List.getElem_mem hkc)
  have hlenc := length_encode_raw henc
  -- the source's loop sends the slice from the batch's encoding, cut at `max_bytes`
  have hrest : chunks.drop k = chunks[k] :: chunks.drop (k + 1) := List.drop_eq_getElem_cons hkc
  have hmin : min (chunks.drop k).flatten.length maxBytes.toNat = maxBytes.toNat := by
    rw [hrest, List.flatten_cons, List.length_append]
    omega
  have hnonneg : 0 ≤ placed[k].baseOffset := by
    rw [Int64.le_iff_toInt_le]
    simp only [Int64.toInt_zero]
    omega
  let req : MirrorPartitionSyncRequest FileSlice :=
    ⟨s.source.hw, s.source.getLeo, ⟨(chunks.take k).flatten.length, maxBytes.toNat⟩⟩
  have hsend : s.next link .sendRecords =
      some { s with toTarget := s.toTarget ++ [req.fileEncode s.source.bytes], updateNeeded := false } := by
    have hgen' := generateRecordsAsSource_batch hinv hbase hF hk maxBytes
    rw [hmin] at hgen'
    simp only [MirrorState.next, hflag, hknown, hnonneg, hgen, hgen', and_self, if_true]
    rfl
  refine ⟨_, hsend, rfl, ?_⟩
  have hfile : s.source.bytes.drop req.records.position = chunks[k] ++ (chunks.drop (k + 1)).flatten := by
    rw [SourceReplica.bytes, hinv.bytes]
    conv_lhs => rw [← List.take_append_drop k chunks, List.flatten_append]
    rw [List.drop_left, hrest, List.flatten_cons]
  exact MirrorState.receiveRecords_cut (List.getElem?_concat_length) henc hfile hcut hj hjlt (by omega)
    hleo.symm hrecords

end Runs

/-! ### A batch cut in two -/

/-- An empty source at offset 0 whose index marks every batch: `MutableSegment::create` with
segment and index sizes of 1024 and 1000 bytes and an index interval of 0. -/
def emptySource : SourceReplica := ⟨⟨MutableSegment.create 0 1024, ⟨0, 125, 0, []⟩⟩, 0⟩

/-- An empty target at offset 0, with a kilobyte per segment and per request. -/
def emptyTarget : FileReplica := FileReplica.create 0 1024 1024

/-- A batch of two records of seven bytes: the record count, then each record with its length. -/
def twoRecords : Batch RawRecords :=
  ⟨0, 0, { (default : BatchHeader) with lastOffsetDelta := 1, firstTimestamp := 0, maxTimeStamp := 0 }, 0,
    ⟨[0, 0, 0, 2, 14, 0, 0, 0, 0, 2, 1, 0, 14, 0, 0, 2, 0, 2, 2, 0]⟩⟩

/-- The batch is produced; the target reports offset 0; the source sends what it lacks, which the
target writes before reporting again. -/
def cutRun : List MirrorEvent :=
  [.produce twoRecords, .sendOffsets, .receiveOffsets 0, .sendRecords, .receiveRecords 0, .receiveOffsets 0]

/-- With `max_bytes` of 70 the remote's slice ends 13 bytes into the records of its 77-byte batch,
inside the second record. The home writes the batch with the first record only, and its log end
offset reaches 2, the remote's; the remote then sees the home caught up and both loops rest. The
home's log is not a prefix of the remote's: its one batch covers offsets 0 and 1 with one record. -/
theorem twoRecords_mirrored_cut :
    ∃ s, Trace.run (MirrorState.next (remoteToHome 70 false)) (.init emptySource emptyTarget) cutRun = some s ∧
      s.Quiescent ∧ s.source.getLeo = 2 ∧ s.target.getLeo = 2 ∧
      ¬ s.target.activeSegment.msgLog.bytes <+: s.source.bytes ∧
      (Batch.decode s.source.bytes).map (fun b : Batch RawRecords =>
        (b.baseOffset, b.header.lastOffsetDelta, (memoryRecordsDecode b.records.bytes).map List.length)) =
        .ok (0, 1, .ok 2) [] ∧
      (Batch.decode s.target.activeSegment.msgLog.bytes).map (fun b : Batch RawRecords =>
        (b.baseOffset, b.header.lastOffsetDelta, (memoryRecordsDecode b.records.bytes).map List.length)) =
        .ok (0, 1, .ok 1) [] := by
  obtain ⟨s, hs⟩ : ∃ s, Trace.run (MirrorState.next (remoteToHome 70 false)) (.init emptySource emptyTarget)
      cutRun = some s := Option.isSome_iff_exists.mp (by decide +kernel)
  have hrest : (Trace.run (MirrorState.next (remoteToHome 70 false)) (.init emptySource emptyTarget) cutRun).map
      (fun s => (decide s.Quiescent, s.source.getLeo, s.target.getLeo,
        decide (s.target.activeSegment.msgLog.bytes <+: s.source.bytes))) = some (true, 2, 2, false) := by
    decide +kernel
  have hsource : (Trace.run (MirrorState.next (remoteToHome 70 false)) (.init emptySource emptyTarget) cutRun).map
      (fun s => (Batch.decode s.source.bytes).map (fun b : Batch RawRecords =>
        (b.baseOffset, b.header.lastOffsetDelta, (memoryRecordsDecode b.records.bytes).map List.length))) =
      some (.ok (0, 1, .ok 2) []) := by
    decide +kernel
  have htarget : (Trace.run (MirrorState.next (remoteToHome 70 false)) (.init emptySource emptyTarget) cutRun).map
      (fun s => (Batch.decode s.target.activeSegment.msgLog.bytes).map (fun b : Batch RawRecords =>
        (b.baseOffset, b.header.lastOffsetDelta, (memoryRecordsDecode b.records.bytes).map List.length))) =
      some (.ok (0, 1, .ok 1) []) := by
    decide +kernel
  rw [hs, Option.map_some, Option.some.injEq] at hrest hsource htarget
  simp only [Prod.mk.injEq, decide_eq_true_eq, decide_eq_false_iff_not] at hrest
  obtain ⟨hq, hsrc, htgt, hpre⟩ := hrest
  exact ⟨s, hs, hq, hsrc, htgt, hpre, hsource, htarget⟩

end Fluvio.Spu
