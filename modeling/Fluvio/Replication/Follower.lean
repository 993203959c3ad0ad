import Fluvio.Spu.Mirror
import Fluvio.Replication.Leader

/-!
Replication of a partition from its leader to a follower (`fluvio-spu/src/replication`): the
leader's `follower_updates` and `update_states_from_followers`, the follower's
`update_from_leader`, and the connection between them, on which a sync message may be delivered
late, out of order or more than once.

The leader keeps the offsets each follower last reported. For a follower that is behind it reads
from the follower's log end offset with `read_records`, cut at the peer's `max_bytes` wherever that
falls, and sends the slice with its own offsets. The follower decodes the record set, writes it when
it starts at its own log end offset, and takes the leader's high watermark when that lies above its
own and within its log.

* `ReplicationState.run_hw_le` — along every run the follower's high watermark never decreases.
* `ReplicationState.reachable_hwReceived` — in every reachable state it is the follower's first
  one or one that a sync message carried.
* `ReplicationState.syncFollower_cut` — for a leader whose log was built by appends and a follower
  at the start of one of its batches: when `max_bytes` ends inside that batch's raw records, the
  leader sends the batch cut there and the follower writes it as it came; a successful write
  moves its log end offset past every record of the whole batch.
* `twoRecords_replicated_cut` — from an empty leader and follower with two in-sync replicas and
  `max_bytes` of 70, a batch of two records reaches the follower without its second record; the
  follower's report then commits both offsets on the leader and on the follower, whose log is not
  a prefix of the leader's.
-/

namespace Fluvio.Spu

/-- `as_offset`: the leader's high watermark and log end offset. -/
def SourceReplica.asOffset (r : SourceReplica) : Replication.OffsetInfo := ⟨r.hw, r.getLeo⟩

/-- `update_high_watermark` on the leader's storage: whether the watermark changed. -/
def SourceReplica.updateHighWatermark (r : SourceReplica) (offset : Int64) : Bool × SourceReplica :=
  if r.hw = offset then (false, r) else (true, { r with hw := offset })

@[simp] theorem SourceReplica.hw_updateHighWatermark (r : SourceReplica) (offset : Int64) :
    (r.updateHighWatermark offset).2.hw = offset := by
  unfold SourceReplica.updateHighWatermark
  split
  · next h => exact h
  · rfl

@[simp] theorem SourceReplica.getLeo_updateHighWatermark (r : SourceReplica) (offset : Int64) :
    (r.updateHighWatermark offset).2.getLeo = r.getLeo := by
  unfold SourceReplica.updateHighWatermark
  split <;> rfl

end Fluvio.Spu

namespace Fluvio.Replication

open Protocol Storage Spu Cursor

/-! ### The messages -/

/-- `PeerFetchablePartitionResponse` without its partition id: the leader's read error, its
offsets, and the records. -/
structure PeerFetchablePartitionResponse (R : Type) where
  error : Option ReadRecordsError
  hw : Int64
  leo : Int64
  records : R
deriving DecidableEq, Repr

/-- `PeerFilePartitionResponse`: the records as a slice of the leader's log file. -/
abbrev PeerFilePartitionResponse := PeerFetchablePartitionResponse FileSlice

/-- `FileRecordSet::file_encode`: the slice's length as `i32`, then the slice of the log file. -/
def fileRecordSetEncode (slice : FileSlice) (file : List UInt8) : List UInt8 :=
  i32Width.put (Int32.ofNat slice.len) ++ (file.drop slice.position).take slice.len

/-- What the follower receives of a `PeerFilePartitionResponse`: its fields, and the records as the
bytes `file_encode` sends for them. -/
def PeerFilePartitionResponse.fileEncode (response : PeerFilePartitionResponse) (file : List UInt8) :
    PeerFetchablePartitionResponse (List UInt8) :=
  ⟨response.error, response.hw, response.leo, fileRecordSetEncode response.records file⟩

/-! ### The leader -/

/-- The follower's entry in the leader's map. -/
def followerInfo (followers : Followers) (followerId : SpuId) : Option OffsetInfo :=
  List.lookup followerId followers

/-- `LeaderReplicaState::follower_updates` for one partition: nothing for a follower the leader
does not know, whose offsets are not valid, or that has the leader's; otherwise the leader's
offsets, with the records from the follower's log end offset when it is behind. -/
def followerUpdates (leader : SourceReplica) (followers : Followers) (followerId : SpuId) (maxBytes : UInt32) :
    Option PeerFilePartitionResponse :=
  let leaderOffset := leader.asOffset
  match followerInfo followers followerId with
  | none => none
  | some info =>
    if info.isValid && !info.isSame leaderOffset then
      let partitionResponse : PeerFilePartitionResponse := ⟨none, 0, 0, ⟨0, 0⟩⟩
      let partitionResponse :=
        if info.leo < leaderOffset.leo then
          match leader.readRecords info.leo none maxBytes with
          | .ok slice =>
            { partitionResponse with
              hw := slice.hw
              leo := slice.leo
              records := slice.fileSlice.getD partitionResponse.records }
          | .error err => { partitionResponse with error := some err }
        else partitionResponse
      some { partitionResponse with leo := leaderOffset.leo, hw := leaderOffset.hw }
    else none

/-- The follower's entry after `update`, in place. -/
def setFollowerInfo (followers : Followers) (followerId : SpuId) (info : OffsetInfo) : Followers :=
  followers.map fun f => if f.1 = followerId then (f.1, info) else f

/-- The part of `update_states_from_followers` under the followers lock, with the leader's offsets
`leaderPos` read before it: whether the follower's entry changed, the leader, and the followers. A
changed entry lets `compute_hw` set the leader's high watermark, unless the leader was committed. -/
def updateFollowerLocked (leader : SourceReplica) (leaderPos : OffsetInfo) (followers : Followers)
    (inSyncReplica : UInt16) (followerId : SpuId) (followerPos : OffsetInfo) : Bool × SourceReplica × Followers :=
  match followerInfo followers followerId with
  | none => (false, leader, followers)
  | some current =>
    match current.update followerPos with
    | (false, _) => (false, leader, followers)
    | (true, info) =>
      let followers := setFollowerInfo followers followerId info
      if !leaderPos.isCommitted then
        match computeHw leaderPos inSyncReplica followers with
        | some hw => (true, (leader.updateHighWatermark hw).2, followers)
        | none => (true, leader, followers)
      else (true, leader, followers)

/-- `update_states_from_followers`, with the leader's offsets read in the same step as the update:
a report newer than the leader is refused. -/
def updateStatesFromFollowers (leader : SourceReplica) (followers : Followers) (inSyncReplica : UInt16)
    (followerId : SpuId) (followerPos : OffsetInfo) : Bool × SourceReplica × Followers :=
  let leaderPos := leader.asOffset
  if followerPos.newer leaderPos then (false, leader, followers)
  else updateFollowerLocked leader leaderPos followers inSyncReplica followerId followerPos

section Write

variable [Crc32c]

/-- `LeaderReplicaState::write_record_set` of one batch: the high watermark follows the log end
offset when the leader is its only in-sync replica; `none` when the active segment does not take
the batch. -/
def leaderWriteBatch (leader : SourceReplica) (inSyncReplica : UInt16) (batch : Batch RawRecords) :
    Option SourceReplica :=
  match leader.active.appendBatch batch with
  | (.ok true, active, _) => some ⟨active, if inSyncReplica = 1 then active.segment.endOffset else leader.hw⟩
  | _ => none

end Write

/-! ### The follower -/

section Follower

variable [Crc32c]

/-- `FollowerReplicaState::write_recordsets`: a record set that does not start at the log end
offset is skipped. -/
def writeRecordsets (r : FileReplica) (records : RecordSet RawRecords) : Except Failure Bool × FileReplica :=
  if records.baseOffset ≠ r.getLeo then (.ok false, r)
  else
    match writeRecordSet r records false with
    | (.ok _, r', _) => (.ok true, r')
    | (.error f, r', _) => (.error f, r')

/-- The second half of `FollowerReplicaState::update_from_leader`: the leader's high watermark is
taken when it lies above the follower's and within its log. -/
def updateHwFromLeader (r : FileReplica) (changes : Bool) (leaderHw : Int64) : Except Failure Bool × FileReplica :=
  if r.hw ≠ leaderHw then
    if leaderHw < r.hw then (.ok changes, r)
    else if r.getLeo < leaderHw then (.ok changes, r)
    else (.ok true, (r.updateHighWatermark leaderHw).2)
  else (.ok changes, r)

/-- `FollowerReplicaState::update_from_leader`: whether anything changed. A record set with records
goes to `write_recordsets`, whose error ends the call. -/
def updateFromLeader (r : FileReplica) (records : RecordSet RawRecords) (leaderHw : Int64) :
    Except Failure Bool × FileReplica :=
  if 0 < records.totalRecords then
    match writeRecordsets r records with
    | (.ok _, r') => updateHwFromLeader r' true leaderHw
    | (.error f, r') => (.error f, r')
  else updateHwFromLeader r false leaderHw

variable {r : FileReplica} {records : RecordSet RawRecords}

theorem writeRecordsets_hw (r : FileReplica) (records : RecordSet RawRecords) :
    (writeRecordsets r records).2.hw = r.hw := by
  unfold writeRecordsets writeRecordSet
  split
  · rfl
  · have hwrite := r.hw_writeRecordset records
    rcases hw : r.writeRecordset records false with ⟨res, r', written⟩
    rw [hw] at hwrite
    cases res <;> exact hwrite

/-- A record set at the log end offset goes to the storage's `write_recordset`, with no update of
the high watermark. -/
theorem writeRecordsets_written (hbase : records.baseOffset = r.getLeo) :
    (writeRecordsets r records).2 = (r.writeRecordset records false).2.1 := by
  unfold writeRecordsets writeRecordSet
  rw [if_neg (not_not.mpr hbase)]
  rcases r.writeRecordset records false with ⟨res, r', written⟩
  cases res <;> rfl

omit [Crc32c] in
/-- The follower keeps its replica, or takes the leader's high watermark when it lies above its own
and within its log. -/
theorem updateHwFromLeader_cases (r : FileReplica) (changes : Bool) (leaderHw : Int64) :
    (updateHwFromLeader r changes leaderHw).2 = r ∨
      (r.hw < leaderHw ∧ leaderHw ≤ r.getLeo ∧ (updateHwFromLeader r changes leaderHw).2 = { r with hw := leaderHw }) := by
  unfold updateHwFromLeader
  split_ifs with hne hlt hleo
  · exact .inl rfl
  · exact .inl rfl
  · right
    refine ⟨?_, ?_, by simp [FileReplica.updateHighWatermark, hne]⟩
    · rw [Int64.lt_iff_toInt_lt] at hlt ⊢
      have hne' : r.hw.toInt ≠ leaderHw.toInt := fun h => hne (Int64.toInt_inj.mp h)
      omega
    · rw [Int64.lt_iff_toInt_lt] at hleo
      rw [Int64.le_iff_toInt_le]
      omega
  · exact .inl rfl

/-- **What `update_from_leader` does to the follower**: a record set with records goes to
`write_recordsets`; then the leader's high watermark is taken when it lies above the follower's and
within its log. -/
theorem updateFromLeader_cases (r : FileReplica) (records : RecordSet RawRecords) (leaderHw : Int64) :
    ∃ r', r' = (if 0 < records.totalRecords then (writeRecordsets r records).2 else r) ∧
      ((updateFromLeader r records leaderHw).2 = r' ∨
        (r'.hw < leaderHw ∧ leaderHw ≤ r'.getLeo ∧
          (updateFromLeader r records leaderHw).2 = { r' with hw := leaderHw })) := by
  unfold updateFromLeader
  by_cases htotal : 0 < records.totalRecords
  · rcases hw : writeRecordsets r records with ⟨res, r'⟩
    refine ⟨r', by rw [if_pos htotal], ?_⟩
    rw [if_pos htotal]
    cases res with
    | ok _ => exact updateHwFromLeader_cases r' true leaderHw
    | error f => exact .inl rfl
  · rw [if_neg htotal, if_neg htotal]
    exact ⟨r, rfl, updateHwFromLeader_cases r false leaderHw⟩

/-- The follower's high watermark after `update_from_leader`: its own, or the leader's when that
lies above it. -/
theorem updateFromLeader_hw (r : FileReplica) (records : RecordSet RawRecords) (leaderHw : Int64) :
    (updateFromLeader r records leaderHw).2.hw = r.hw ∨
      (r.hw < leaderHw ∧ (updateFromLeader r records leaderHw).2.hw = leaderHw) := by
  obtain ⟨r', hr', hres⟩ := updateFromLeader_cases r records leaderHw
  have hkeep : r'.hw = r.hw := by
    rw [hr']
    split
    · exact writeRecordsets_hw r records
    · rfl
  rcases hres with hres | ⟨hlt, -, hres⟩
  · left
    rw [hres, hkeep]
  · right
    rw [hres, ← hkeep]
    exact ⟨hlt, rfl⟩

/-- The follower's log end offset after `update_from_leader` is the one its write left. -/
theorem updateFromLeader_getLeo (r : FileReplica) (records : RecordSet RawRecords) (leaderHw : Int64) :
    (updateFromLeader r records leaderHw).2.getLeo =
      (if 0 < records.totalRecords then (writeRecordsets r records).2 else r).getLeo := by
  obtain ⟨r', rfl, hres | ⟨-, -, hres⟩⟩ := updateFromLeader_cases r records leaderHw
  · rw [hres]
  · rw [hres]
    rfl

end Follower

/-! ### The replication loop -/

/-- The leader's settings: the follower it syncs, `in_sync_replica`, and the peer's `max_bytes`. -/
structure ReplicationConfig where
  followerId : SpuId
  inSyncReplica : UInt16
  maxBytes : UInt32

/-- The replication of one partition to one follower: the leader's replica and its map of the
followers' offsets, the follower's replica, the sync messages sent and the offsets the follower
reported. Nothing sent is taken back, so a message may be delivered late, out of order or again. -/
structure ReplicationState where
  leader : SourceReplica
  followers : Followers
  follower : FileReplica
  sent : List (PeerFetchablePartitionResponse (List UInt8))
  reports : List OffsetInfo

/-- The start: the leader knows nothing of the follower yet (`OffsetInfo::default`). -/
def ReplicationState.init (c : ReplicationConfig) (leader : SourceReplica) (follower : FileReplica) :
    ReplicationState :=
  ⟨leader, [(c.followerId, default)], follower, [], []⟩

/-- What can happen next: a producer writes a batch to the leader, the leader syncs the follower,
the follower takes a sync message, reports its offsets, or the leader takes a report. -/
inductive ReplicationEvent
  | produce (batch : Batch RawRecords)
  | syncFollower
  | syncFromLeader (i : Nat)
  | sendOffsets
  | updateFromFollower (i : Nat)
deriving DecidableEq, Repr

section Loop

variable [Crc32c]

/-- One step of replication; `none` when the event cannot happen. A sync message the follower
cannot decode ends the connection and changes nothing; an error of `update_from_leader` is logged. -/
def ReplicationState.next (c : ReplicationConfig) (s : ReplicationState) : ReplicationEvent → Option ReplicationState
  | .produce batch => (leaderWriteBatch s.leader c.inSyncReplica batch).map fun leader => { s with leader := leader }
  | .syncFollower =>
    match followerUpdates s.leader s.followers c.followerId c.maxBytes with
    | some response => some { s with sent := s.sent ++ [response.fileEncode s.leader.bytes] }
    | none => none
  | .syncFromLeader i =>
    match s.sent[i]? with
    | none => none
    | some message =>
      match (RecordSet.decode : Decode (RecordSet RawRecords)) message.records with
      | .error _ _ => some s
      | .ok records _ =>
        match updateFromLeader s.follower records message.hw with
        | (.ok changes, follower) =>
          some { s with follower := follower,
                        reports := if changes then s.reports ++ [⟨follower.hw, follower.getLeo⟩] else s.reports }
        | (.error _, follower) => some { s with follower := follower }
  | .sendOffsets => some { s with reports := s.reports ++ [⟨s.follower.hw, s.follower.getLeo⟩] }
  | .updateFromFollower i =>
    match s.reports[i]? with
    | none => none
    | some followerPos =>
      match updateStatesFromFollowers s.leader s.followers c.inSyncReplica c.followerId followerPos with
      | (_, leader, followers) => some { s with leader := leader, followers := followers }

end Loop

/-! ### What the leader sends -/

section Leader

variable [Crc32c] {leader : SourceReplica} {base : Int64} {chunks : List (List UInt8)}
  {placed : List (Batch RawRecords)} {S L : Nat}

/-- **The sync message for a follower at the start of a batch of the leader's log**: the leader's
offsets, and the slice from that batch's encoding to the end of the log or for `max_bytes`. -/
theorem followerUpdates_batch (hinv : leader.active.Inv base chunks placed S L) (hbase : 0 ≤ base.toInt)
    (hF : leader.bytes.length < 2 ^ 32) {k : Nat} (hk : k < placed.length) {followers : Followers}
    {followerId : SpuId} {info : OffsetInfo} (hinfo : followerInfo followers followerId = some info)
    (hvalid : info.isValid = true) (hknown : info.leo = placed[k].baseOffset) (maxBytes : UInt32) :
    followerUpdates leader followers followerId maxBytes = some ⟨none, leader.hw, leader.getLeo,
      ⟨(chunks.take k).flatten.length, min (chunks.drop k).flatten.length maxBytes.toNat⟩⟩ := by
  obtain ⟨-, -, hhi⟩ := SourceReplica.batch_inside hinv hk
  have hlt : info.leo < leader.getLeo := by
    rw [hknown]
    exact Int64.lt_iff_toInt_lt.mpr hhi
  have hsend : (info.isValid && !info.isSame leader.asOffset) = true := by
    have hne : info.leo ≠ leader.getLeo := Int64.ne_of_lt hlt
    simp [OffsetInfo.isSame, SourceReplica.asOffset, hne, hvalid]
  have hbehind : info.leo < leader.asOffset.leo := hlt
  unfold followerUpdates
  rw [hinfo]
  dsimp only
  rw [if_pos hsend, if_pos hbehind, hknown, SourceReplica.readRecords_batch hinv hbase hF hk]
  rfl

/-- **The slice of a batch cut inside its raw records**: when `max_bytes` ends there, the slice from
the batch's encoding is `max_bytes` long and decodes to the batch cut there. -/
theorem SourceReplica.fileSlice_cut (hinv : leader.active.Inv base chunks placed S L) {k : Nat}
    (hk : k < placed.length) {maxBytes : UInt32} {j : Nat}
    (hcut : maxBytes.toNat = batchFileHeaderSize + placed[k].schemaBytes.length + j)
    (hj : 0 < j) (hjlt : j < placed[k].records.bytes.length) :
    min (chunks.drop k).flatten.length maxBytes.toNat = maxBytes.toNat ∧
      ∃ cut : Batch RawRecords, cut.baseOffset = placed[k].baseOffset ∧
        cut.header.lastOffsetDelta = placed[k].header.lastOffsetDelta ∧
        cut.records = (⟨placed[k].records.bytes.take j⟩ : RawRecords) ∧
        (RecordSet.decode : Decode (RecordSet RawRecords))
          (fileRecordSetEncode ⟨(chunks.take k).flatten.length, maxBytes.toNat⟩ leader.bytes) = .ok ⟨[cut]⟩ [] := by
  have hkc : k < chunks.length := by
    rw [hinv.encodes.length_eq]
    exact hk
  have henc : Encoder.encode placed[k] = some chunks[k] := hinv.encodes.get hkc hk
  have hsmall := hinv.small chunks[k] (List.getElem_mem hkc)
  have hlenc := length_encode_raw henc
  have hrest : chunks.drop k = chunks[k] :: chunks.drop (k + 1) := List.drop_eq_getElem_cons hkc
  let slice : FileSlice := ⟨(chunks.take k).flatten.length, maxBytes.toNat⟩
  -- the batch's encoding starts the file at the slice's position
  have hfile : leader.bytes.drop slice.position = chunks[k] ++ (chunks.drop (k + 1)).flatten := by
    rw [SourceReplica.bytes, hinv.bytes]
    conv_lhs => rw [← List.take_append_drop k chunks, List.flatten_append]
    rw [List.drop_left, hrest, List.flatten_cons]
  constructor
  · rw [hrest, List.flatten_cons, List.length_append]
    omega
  · exact decode_fileSlice_cut henc hfile hcut hj hjlt (by omega)

end Leader

/-! ### Runs -/

section Runs

variable [Crc32c] {c : ReplicationConfig} {s s' : ReplicationState}

/-- A sync message the follower decodes leaves it as `update_from_leader` does. -/
theorem ReplicationState.next_syncFromLeader {i : Nat} {message : PeerFetchablePartitionResponse (List UInt8)}
    {records : RecordSet RawRecords} {rest : List UInt8} (hi : s.sent[i]? = some message)
    (hdec : (RecordSet.decode : Decode (RecordSet RawRecords)) message.records = .ok records rest) :
    (s.next c (.syncFromLeader i)).map ReplicationState.follower =
      some (updateFromLeader s.follower records message.hw).2 := by
  simp only [ReplicationState.next, hi, hdec]
  split <;> rename_i heq <;> simp [heq]

/-- **One step changes the follower only by `update_from_leader` of a message sent**, and takes
back no message. -/
theorem ReplicationState.next_follower {e : ReplicationEvent} (h : s.next c e = some s') :
    s.sent <+: s'.sent ∧
      (s'.follower = s.follower ∨ ∃ message ∈ s.sent, ∃ records : RecordSet RawRecords,
        s'.follower = (updateFromLeader s.follower records message.hw).2) := by
  cases e with
  | produce batch =>
    obtain ⟨leader, -, rfl⟩ := Option.map_eq_some_iff.mp h
    exact ⟨List.prefix_refl _, .inl rfl⟩
  | syncFollower =>
    simp only [ReplicationState.next] at h
    split at h <;> cases h
    exact ⟨List.prefix_append _ _, .inl rfl⟩
  | syncFromLeader i =>
    cases hi : s.sent[i]? with
    | none => simp [ReplicationState.next, hi] at h
    | some message =>
      cases hdec : (RecordSet.decode : Decode (RecordSet RawRecords)) message.records with
      | error err rest =>
        simp only [ReplicationState.next, hi, hdec, Option.some.injEq] at h
        rw [← h]
        exact ⟨List.prefix_refl _, .inl rfl⟩
      | ok records rest =>
        have hfollower := ReplicationState.next_syncFromLeader (c := c) hi hdec
        rw [h, Option.map_some, Option.some.injEq] at hfollower
        have hsent : s'.sent = s.sent := by
          simp only [ReplicationState.next, hi, hdec] at h
          split at h <;> cases h <;> rfl
        rw [hsent]
        exact ⟨List.prefix_refl _, .inr ⟨message, List.mem_of_getElem? hi, records, hfollower⟩⟩
  | sendOffsets =>
    cases h
    exact ⟨List.prefix_refl _, .inl rfl⟩
  | updateFromFollower i =>
    simp only [ReplicationState.next] at h
    split at h
    · cases h
    · cases h
      exact ⟨List.prefix_refl _, .inl rfl⟩

/-- One step never lowers the follower's high watermark. -/
theorem ReplicationState.next_hw_le {e : ReplicationEvent} (h : s.next c e = some s') :
    s.follower.hw ≤ s'.follower.hw := by
  rcases (ReplicationState.next_follower h).2 with heq | ⟨message, -, records, heq⟩
  · rw [heq]
    exact Int64.le_refl _
  · rw [heq]
    rcases updateFromLeader_hw s.follower records message.hw with hhw | ⟨hlt, hhw⟩
    · rw [hhw]
      exact Int64.le_refl _
    · rw [hhw]
      exact Int64.le_of_lt hlt

/-- **Along every run the follower's high watermark never decreases**, whatever messages are
delivered late, out of order or again. -/
theorem ReplicationState.run_hw_le {events : List ReplicationEvent}
    (h : Trace.run (ReplicationState.next c) s events = some s') : s.follower.hw ≤ s'.follower.hw := by
  have hstep : ∀ (t : ReplicationState) e t', s.follower.hw ≤ t.follower.hw → True → t.next c e = some t' →
      s.follower.hw ≤ t'.follower.hw := by
    intro t e t' hle _ hnext
    exact Int64.le_trans hle (ReplicationState.next_hw_le hnext)
  exact Trace.run_invariant hstep (Int64.le_refl _) (fun _ _ => trivial) h

/-- The follower's high watermark is its first one, or one that a sync message carried. -/
def ReplicationState.HwReceived (hw₀ : Int64) (s : ReplicationState) : Prop :=
  s.follower.hw = hw₀ ∨ ∃ message ∈ s.sent, s.follower.hw = message.hw

theorem ReplicationState.HwReceived.next {hw₀ : Int64} {e : ReplicationEvent} (hs : s.HwReceived hw₀)
    (h : s.next c e = some s') : s'.HwReceived hw₀ := by
  obtain ⟨hgrow, hchange⟩ := ReplicationState.next_follower h
  have hkept : s.HwReceived hw₀ → s'.follower.hw = s.follower.hw → s'.HwReceived hw₀ := by
    rintro (hinit | ⟨message, hmem, hhw⟩) hsame
    · exact .inl (hsame.trans hinit)
    · exact .inr ⟨message, hgrow.subset hmem, hsame.trans hhw⟩
  rcases hchange with heq | ⟨message, hmem, records, heq⟩
  · exact hkept hs (by rw [heq])
  · rcases updateFromLeader_hw s.follower records message.hw with hhw | ⟨-, hhw⟩
    · exact hkept hs (by rw [heq, hhw])
    · exact .inr ⟨message, hgrow.subset hmem, by rw [heq, hhw]⟩

/-- **The follower's high watermark is one it received**: in every reachable state it is the
follower's first one or the high watermark of a sync message the leader sent. -/
theorem ReplicationState.reachable_hwReceived {leader : SourceReplica} {follower : FileReplica}
    (h : Trace.Reachable (ReplicationState.next c) (.init c leader follower) s) :
    s.HwReceived follower.hw :=
  h.invariant (.inl rfl) fun _ _ _ hs hnext => hs.next hnext

/-- **The leader sends a batch cut at `max_bytes`, and the follower writes it as the whole batch.**
Take a leader whose log was built by appends from a non-negative base, and a follower at the start
of one of its batches, whose valid offsets the leader holds. When `max_bytes` ends inside that
batch's raw records, the leader's next sync message carries the batch cut there. When the follower
takes the message, it writes the cut batch; a successful write moves its log end offset past every
record of the whole batch. -/
theorem ReplicationState.syncFollower_cut {base : Int64} {chunks : List (List UInt8)}
    {placed : List (Batch RawRecords)} {S L : Nat} (hinv : s.leader.active.Inv base chunks placed S L)
    (hbase : 0 ≤ base.toInt) (hF : s.leader.bytes.length < 2 ^ 32) {k : Nat} (hk : k < placed.length)
    {info : OffsetInfo} (hinfo : followerInfo s.followers c.followerId = some info)
    (hvalid : info.isValid = true) (hknown : info.leo = placed[k].baseOffset)
    (hleo : s.follower.getLeo = placed[k].baseOffset)
    {j : Nat} (hcut : c.maxBytes.toNat = batchFileHeaderSize + placed[k].schemaBytes.length + j)
    (hj : 0 < j) (hjlt : j < placed[k].records.bytes.length) :
    ∃ s₁, s.next c .syncFollower = some s₁ ∧ s₁.follower = s.follower ∧
      ∃ cut : Batch RawRecords, cut.baseOffset = placed[k].baseOffset ∧
        cut.header.lastOffsetDelta = placed[k].header.lastOffsetDelta ∧
        cut.records = (⟨placed[k].records.bytes.take j⟩ : RawRecords) ∧
        (s₁.next c (.syncFromLeader s.sent.length)).map ReplicationState.follower =
          some (updateFromLeader s.follower ⟨[cut]⟩ s.leader.hw).2 ∧
        ∀ total r' written, s.follower.writeRecordset ⟨[cut]⟩ false = (.ok total, r', written) →
          (updateFromLeader s.follower ⟨[cut]⟩ s.leader.hw).2.getLeo =
            s.follower.getLeo + Int64.ofNat placed[k].recordsLen ∧ written.batches = [cut] := by
  obtain ⟨-, hrecords, -⟩ := SourceReplica.batch_inside hinv hk
  obtain ⟨hmin, cut, hcbase, hlod, hcrecords, hdec⟩ := SourceReplica.fileSlice_cut hinv hk hcut hj hjlt
  let slice : FileSlice := ⟨(chunks.take k).flatten.length, c.maxBytes.toNat⟩
  have hsend : s.next c .syncFollower = some { s with
      sent := s.sent ++ [PeerFilePartitionResponse.fileEncode ⟨none, s.leader.hw, s.leader.getLeo, slice⟩
        s.leader.bytes] } := by
    have hupdates := followerUpdates_batch hinv hbase hF hk hinfo hvalid hknown c.maxBytes
    rw [hmin] at hupdates
    simp only [ReplicationState.next, hupdates]
    rfl
  refine ⟨_, hsend, rfl, ?_⟩
  -- the cut batch announces the records of the whole one
  have htotal : (⟨[cut]⟩ : RecordSet RawRecords).totalRecords = placed[k].recordsLen := by
    simp [RecordSet.totalRecords, Batch.recordsLen, hlod]
  have hstart : (⟨[cut]⟩ : RecordSet RawRecords).baseOffset = s.follower.getLeo := hcbase.trans hleo.symm
  have hmessage : (RecordSet.decode : Decode (RecordSet RawRecords))
      (PeerFilePartitionResponse.fileEncode ⟨none, s.leader.hw, s.leader.getLeo, slice⟩ s.leader.bytes).records =
      .ok ⟨[cut]⟩ [] := hdec
  refine ⟨cut, hcbase, hlod, hcrecords, ?_, fun total r' written hw => ?_⟩
  · exact ReplicationState.next_syncFromLeader List.getElem?_concat_length hmessage
  obtain ⟨hplaced, hleo', -⟩ := FileReplica.writeRecordset_ok hw
  constructor
  · rw [updateFromLeader_getLeo, if_pos (by rw [htotal]; exact Nat.pos_of_ne_zero hrecords),
      writeRecordsets_written hstart, hw, hleo', htotal]
  · rw [hplaced, placeBatches, placeBatches, ← hstart]
    rfl

end Runs

/-! ### A batch cut in two -/

/-- The follower `5001` of a partition with two in-sync replicas, synced 70 bytes at a time. -/
def twoReplicas : ReplicationConfig := ⟨5001, 2, 70⟩

/-- The batch is produced; the follower reports its empty log, the leader sends what it lacks, and
the follower writes it and reports again; the leader sends its new high watermark. -/
def syncRun : List ReplicationEvent :=
  [.produce twoRecords, .sendOffsets, .updateFromFollower 0, .syncFollower, .syncFromLeader 0,
    .updateFromFollower 1, .syncFollower, .syncFromLeader 1]

/-- With `max_bytes` of 70 the leader's slice ends 13 bytes into the records of its 77-byte batch,
inside the second record. The follower writes the batch with the first record only and reports log
end offset 2; the leader counts both offsets as replicated and raises its high watermark to 2, which
the follower then takes too. The follower's log is not a prefix of the leader's: its one batch
covers offsets 0 and 1 with one record. -/
theorem twoRecords_replicated_cut :
    ∃ s, Trace.run (ReplicationState.next twoReplicas) (.init twoReplicas emptySource emptyTarget) syncRun = some s ∧
      s.leader.getLeo = 2 ∧ s.leader.hw = 2 ∧ s.follower.getLeo = 2 ∧ s.follower.hw = 2 ∧
      ¬ s.follower.activeSegment.msgLog.bytes <+: s.leader.bytes ∧
      (Batch.decode s.leader.bytes).map (fun b : Batch RawRecords =>
        (b.baseOffset, b.header.lastOffsetDelta, (memoryRecordsDecode b.records.bytes).map List.length)) =
        .ok (0, 1, .ok 2) [] ∧
      (Batch.decode s.follower.activeSegment.msgLog.bytes).map (fun b : Batch RawRecords =>
        (b.baseOffset, b.header.lastOffsetDelta, (memoryRecordsDecode b.records.bytes).map List.length)) =
        .ok (0, 1, .ok 1) [] := by
  obtain ⟨s, hs⟩ : ∃ s, Trace.run (ReplicationState.next twoReplicas) (.init twoReplicas emptySource emptyTarget)
      syncRun = some s := Option.isSome_iff_exists.mp (by decide +kernel)
  have hoffsets : (Trace.run (ReplicationState.next twoReplicas) (.init twoReplicas emptySource emptyTarget)
      syncRun).map (fun s => (s.leader.getLeo, s.leader.hw, s.follower.getLeo, s.follower.hw,
        decide (s.follower.activeSegment.msgLog.bytes <+: s.leader.bytes))) = some (2, 2, 2, 2, false) := by
    decide +kernel
  have hleader : (Trace.run (ReplicationState.next twoReplicas) (.init twoReplicas emptySource emptyTarget)
      syncRun).map (fun s => (Batch.decode s.leader.bytes).map (fun b : Batch RawRecords =>
        (b.baseOffset, b.header.lastOffsetDelta, (memoryRecordsDecode b.records.bytes).map List.length))) =
      some (.ok (0, 1, .ok 2) []) := by
    decide +kernel
  have hfollower : (Trace.run (ReplicationState.next twoReplicas) (.init twoReplicas emptySource emptyTarget)
      syncRun).map (fun s => (Batch.decode s.follower.activeSegment.msgLog.bytes).map (fun b : Batch RawRecords =>
        (b.baseOffset, b.header.lastOffsetDelta, (memoryRecordsDecode b.records.bytes).map List.length))) =
      some (.ok (0, 1, .ok 1) []) := by
    decide +kernel
  rw [hs, Option.map_some, Option.some.injEq] at hoffsets hleader hfollower
  simp only [Prod.mk.injEq, decide_eq_false_iff_not] at hoffsets
  obtain ⟨hlleo, hlhw, hfleo, hfhw, hpre⟩ := hoffsets
  exact ⟨s, hs, hlleo, hlhw, hfleo, hfhw, hpre, hleader, hfollower⟩

end Fluvio.Replication
