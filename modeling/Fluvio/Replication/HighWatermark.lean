import Fluvio.Replication.Follower
import Mathlib.Data.List.Dedup

/-!
The leader's high watermark under concurrent calls (`fluvio-spu/src/replication/leader/replica_state.rs`,
`fluvio-storage/src/lib.rs`). `update_states_from_followers` reads the leader's offsets, then waits
for the followers lock while the leader's log may be written; under the lock it records the
follower's report and lets `compute_hw`, from the offsets it read, set the high watermark.

`LeaderReplicaState::new` takes `in_sync_replica` to be the number of replicas and the other
replicas to be the followers. When the leader is among its replicas, it is its only in-sync replica
exactly when it has no follower, and then only its writes move the high watermark.

* `LeaderState.hw_safe` — from a leader among its replicas whose high watermark lies between 0 and
  its log end offset, in every interleaving whose writes keep the log end offset below `2 ^ 63`: no
  step lowers the high watermark or lifts it above the log end offset, a step that moves it leaves
  `min_lrs` followers whose recorded log end offset reaches it, and a report taken under the lock
  raises its follower's entry to the componentwise maximum and changes no other.
* `strayFollower_hw_lowered` — a leader that is not among its replicas is its only in-sync replica
  with a follower; a report read before a write then lowers the high watermark under the lock.
-/

namespace Fluvio.Replication

open Protocol Storage Spu

/-! ### The leader -/

/-- `ids_to_map`: the replicas other than the leader, once each, with `OffsetInfo::default`. -/
def idsToMap (leaderId : SpuId) (followerIds : List SpuId) : Followers :=
  (followerIds.dedup.filter fun id => id != leaderId).map fun id => (id, default)

/-- A call of `update_states_from_followers` waiting for the followers lock: the follower, its
report, and the leader's offsets the call read. -/
structure PendingUpdate where
  followerId : SpuId
  followerPos : OffsetInfo
  leaderPos : OffsetInfo
deriving DecidableEq, Repr

/-- The leader of a partition: its replica, `in_sync_replica`, its map of the followers' offsets,
and the calls of `update_states_from_followers` waiting for the lock. -/
structure LeaderState where
  leader : SourceReplica
  inSyncReplica : UInt16
  followers : Followers
  pending : List PendingUpdate

/-- `LeaderReplicaState::new`: `in_sync_replica` is the number of replicas as `u16`, and the other
replicas are the followers. -/
def LeaderState.new (leaderId : SpuId) (replicas : List SpuId) (storage : SourceReplica) : LeaderState :=
  ⟨storage, UInt16.ofNat replicas.length, idsToMap leaderId replicas, []⟩

/-- What can happen next: a producer's write, a follower's report read against the leader's
offsets, or a waiting call taking the followers lock. -/
inductive LeaderEvent
  | produce (batch : Batch RawRecords)
  | report (followerId : SpuId) (followerPos : OffsetInfo)
  | lock (i : Nat)
deriving DecidableEq, Repr

/-- The records an event writes. -/
def LeaderEvent.records : LeaderEvent → Nat
  | .produce batch => batch.recordsLen
  | _ => 0

/-- The records a run writes. -/
def producedRecords (events : List LeaderEvent) : Nat := (events.map LeaderEvent.records).sum

section Step

variable [Crc32c]

/-- One step of the leader; `none` when the event cannot happen. A report newer than the offsets
the call read is refused before the lock. -/
def LeaderState.next (s : LeaderState) : LeaderEvent → Option LeaderState
  | .produce batch => (leaderWriteBatch s.leader s.inSyncReplica batch).map fun leader => { s with leader := leader }
  | .report followerId followerPos =>
    let leaderPos := s.leader.asOffset
    if followerPos.newer leaderPos then some s
    else some { s with pending := s.pending ++ [⟨followerId, followerPos, leaderPos⟩] }
  | .lock i =>
    match s.pending[i]? with
    | none => none
    | some p =>
      match updateFollowerLocked s.leader p.leaderPos s.followers s.inSyncReplica p.followerId p.followerPos with
      | (_, leader, followers) =>
        some { s with leader := leader, followers := followers, pending := s.pending.eraseIdx i }

end Step

/-- The report a step applies under the followers lock. -/
def LeaderState.lockedReport (s : LeaderState) : LeaderEvent → Option PendingUpdate
  | .lock i => s.pending[i]?
  | _ => none

/-! ### Offsets and the followers' map -/

theorem OffsetInfo.ext_toInt {a b : OffsetInfo} (hhw : a.hw.toInt = b.hw.toInt) (hleo : a.leo.toInt = b.leo.toInt) :
    a = b := by
  cases a
  cases b
  simp only [OffsetInfo.mk.injEq]
  exact ⟨Int64.toInt_inj.mp hhw, Int64.toInt_inj.mp hleo⟩

/-- **`update` takes the componentwise maximum** of the entry and the report. -/
theorem OffsetInfo.toInt_update (a b : OffsetInfo) :
    (a.update b).2.hw.toInt = max a.hw.toInt b.hw.toInt ∧ (a.update b).2.leo.toInt = max a.leo.toInt b.leo.toInt := by
  simp only [OffsetInfo.update]
  constructor <;> split_ifs with h <;> simp only [decide_eq_true_eq, Int64.lt_iff_toInt_lt] at h <;> omega

/-- Two reports leave the same entry in either order. -/
theorem OffsetInfo.update_comm (a b c : OffsetInfo) :
    ((a.update b).2.update c).2 = ((a.update c).2.update b).2 := by
  obtain ⟨hab, lab⟩ := a.toInt_update b
  obtain ⟨hac, lac⟩ := a.toInt_update c
  obtain ⟨habc, labc⟩ := (a.update b).2.toInt_update c
  obtain ⟨hacb, lacb⟩ := (a.update c).2.toInt_update b
  apply OffsetInfo.ext_toInt <;> omega

/-- A report that changes nothing leaves the entry as it is. -/
theorem OffsetInfo.update_of_unchanged {a b : OffsetInfo} (h : (a.update b).1 = false) : (a.update b).2 = a := by
  simp only [OffsetInfo.update, Bool.or_eq_false_iff, decide_eq_false_iff_not] at h
  simp [OffsetInfo.update, h.1, h.2]

theorem OffsetInfo.leo_update_cases (a b : OffsetInfo) : (a.update b).2.leo = a.leo ∨ (a.update b).2.leo = b.leo := by
  simp only [OffsetInfo.update]
  split <;> simp

/-- The log end offset an update leaves is at least the entry's. -/
theorem OffsetInfo.leo_le_update (a b : OffsetInfo) : a.leo ≤ (a.update b).2.leo := by
  rw [Int64.le_iff_toInt_le, (a.toInt_update b).2]
  omega

section Followers

variable {followers : Followers} {followerId : SpuId} {info : OffsetInfo}

@[simp] theorem length_setFollowerInfo : (setFollowerInfo followers followerId info).length = followers.length := by
  simp [setFollowerInfo]

theorem map_fst_setFollowerInfo :
    (setFollowerInfo followers followerId info).map Prod.fst = followers.map Prod.fst := by
  simp only [setFollowerInfo, List.map_map]
  apply List.map_congr_left
  intro f _
  simp only [Function.comp]
  split <;> simp_all

theorem followerInfo_cons (f : SpuId × OffsetInfo) (rest : Followers) (id : SpuId) :
    followerInfo (f :: rest) id = if id = f.1 then some f.2 else followerInfo rest id := by
  obtain ⟨k, v⟩ := f
  simp only [followerInfo, List.lookup_cons]
  by_cases h : id = k
  · rw [show (id == k) = true from beq_iff_eq.mpr h, if_pos h]
  · rw [show (id == k) = false from beq_eq_false_iff_ne.mpr h, if_neg h]

/-- Setting a follower's entry: looked up under its id it is the new one, and the others are kept. -/
theorem followerInfo_setFollowerInfo (id : SpuId) :
    followerInfo (setFollowerInfo followers followerId info) id =
      if id = followerId then (followerInfo followers id).map fun _ => info else followerInfo followers id := by
  induction followers with
  | nil => simp [setFollowerInfo, followerInfo, List.lookup_nil]
  | cons f rest ih =>
    by_cases hf : f.1 = followerId
    · have hcons : setFollowerInfo (f :: rest) followerId info = (f.1, info) :: setFollowerInfo rest followerId info := by
        simp [setFollowerInfo, hf]
      rw [hcons, followerInfo_cons, followerInfo_cons, ih]
      by_cases hid : id = followerId <;> simp [hid, hf]
    · have hcons : setFollowerInfo (f :: rest) followerId info = f :: setFollowerInfo rest followerId info := by
        simp [setFollowerInfo, hf]
      rw [hcons, followerInfo_cons, followerInfo_cons, ih]
      by_cases hid : id = followerId
      · have hne : followerId ≠ f.1 := fun h => hf h.symm
        simp [hid, hne]
      · simp [hid]

/-- Under one entry per follower, the entry under an id is the one the map looks up. -/
theorem eq_of_followerInfo (hkeys : (followers.map Prod.fst).Nodup) {current : OffsetInfo}
    (hlook : followerInfo followers followerId = some current) :
    ∀ f ∈ followers, f.1 = followerId → f.2 = current := by
  induction followers with
  | nil => simp
  | cons g rest ih =>
    rw [List.map_cons, List.nodup_cons] at hkeys
    rw [followerInfo_cons] at hlook
    rintro f hf rfl
    rcases List.mem_cons.mp hf with rfl | hmem
    · simpa using hlook
    · have hne : f.1 ≠ g.1 := fun h => hkeys.1 (h ▸ List.mem_map_of_mem hmem)
      rw [if_neg hne] at hlook
      exact ih hkeys.2 hlook f hmem rfl

/-- **Raising one follower's entry raises no count below it**: with one entry per follower, each
entry of the new map has a log end offset at least the old one's. -/
theorem forall₂_setFollowerInfo (hkeys : (followers.map Prod.fst).Nodup) {current : OffsetInfo}
    (hlook : followerInfo followers followerId = some current) (hle : current.leo ≤ info.leo) :
    List.Forall₂ (fun f f' => f.2.leo ≤ f'.2.leo) followers (setFollowerInfo followers followerId info) := by
  rw [setFollowerInfo, List.forall₂_map_right_iff, List.forall₂_same]
  intro f hf
  split
  · next hid => rw [eq_of_followerInfo hkeys hlook f hf hid]; exact hle
  · exact Int64.le_refl _

theorem mem_of_followerInfo {current : OffsetInfo} (hlook : followerInfo followers followerId = some current) :
    (followerId, current) ∈ followers := by
  induction followers with
  | nil => simp [followerInfo, List.lookup_nil] at hlook
  | cons g rest ih =>
    rw [followerInfo_cons] at hlook
    split at hlook
    · next hid =>
      cases hlook
      rw [hid]
      exact List.mem_cons_self
    · exact List.mem_cons_of_mem _ (ih hlook)

theorem mem_setFollowerInfo {f : SpuId × OffsetInfo} (h : f ∈ setFollowerInfo followers followerId info) :
    f ∈ followers ∨ f = (followerId, info) := by
  obtain ⟨g, hg, rfl⟩ := List.mem_map.mp h
  split
  · next hid => exact .inr (by rw [hid])
  · exact .inl hg

end Followers

/-! ### One call under the lock, one write -/

section Locked

variable {leader : SourceReplica} {leaderPos : OffsetInfo} {followers : Followers} {inSyncReplica : UInt16}
  {followerId : SpuId} {followerPos : OffsetInfo}

/-- **What the part under the lock does**: nothing, when the follower is unknown or its report
changes nothing; otherwise its entry takes the report, and `compute_hw` over the new map, from the
offsets read before the lock, may set the leader's high watermark. -/
theorem updateFollowerLocked_cases (leader : SourceReplica) (leaderPos : OffsetInfo) (followers : Followers)
    (inSyncReplica : UInt16) (followerId : SpuId) (followerPos : OffsetInfo) :
    ((updateFollowerLocked leader leaderPos followers inSyncReplica followerId followerPos).2 = (leader, followers) ∧
        ∀ current, followerInfo followers followerId = some current → (current.update followerPos).2 = current) ∨
      ∃ current, followerInfo followers followerId = some current ∧
        (updateFollowerLocked leader leaderPos followers inSyncReplica followerId followerPos).2.2 =
          setFollowerInfo followers followerId (current.update followerPos).2 ∧
        ((updateFollowerLocked leader leaderPos followers inSyncReplica followerId followerPos).2.1 = leader ∨
          ∃ hw, leaderPos.isCommitted = false ∧
            computeHw leaderPos inSyncReplica (setFollowerInfo followers followerId (current.update followerPos).2) =
              some hw ∧
            (updateFollowerLocked leader leaderPos followers inSyncReplica followerId followerPos).2.1 =
              (leader.updateHighWatermark hw).2) := by
  unfold updateFollowerLocked
  cases hlook : followerInfo followers followerId with
  | none => exact .inl ⟨rfl, by simp⟩
  | some current =>
    dsimp only
    rcases hupd : current.update followerPos with ⟨_ | _, info⟩
    · refine .inl ⟨rfl, ?_⟩
      rintro c ⟨⟩
      exact OffsetInfo.update_of_unchanged (by rw [hupd])
    · have hinfo : (current.update followerPos).2 = info := by rw [hupd]
      refine .inr ⟨current, rfl, ?_⟩
      dsimp only
      rw [hinfo]
      split
      · next hnot =>
        simp only [Bool.not_eq_eq_eq_not, Bool.not_true] at hnot
        split
        · next hw hcompute => exact ⟨rfl, .inr ⟨hw, hnot, hcompute, rfl⟩⟩
        · exact ⟨rfl, .inl rfl⟩
      · exact ⟨rfl, .inl rfl⟩

/-- The followers' map after the part under the lock: the reporting follower's entry takes the
report, and the others are kept. -/
theorem updateFollowerLocked_followerInfo (id : SpuId) :
    followerInfo (updateFollowerLocked leader leaderPos followers inSyncReplica followerId followerPos).2.2 id =
      (followerInfo followers id).map fun entry => if id = followerId then (entry.update followerPos).2 else entry := by
  rcases updateFollowerLocked_cases leader leaderPos followers inSyncReplica followerId followerPos with
    ⟨hsame, hkeep⟩ | ⟨current, hlook, hset, -⟩
  · rw [show (updateFollowerLocked leader leaderPos followers inSyncReplica followerId followerPos).2.2 = followers
      from congrArg Prod.snd hsame]
    by_cases hid : id = followerId
    · subst hid
      cases hlook : followerInfo followers id with
      | none => rfl
      | some current => simp [hkeep current hlook]
    · simp [hid]
  · rw [hset, followerInfo_setFollowerInfo]
    by_cases hid : id = followerId
    · subst hid
      simp [hlook]
    · simp [hid]

end Locked

section Write

variable [Crc32c] {leader leader' : SourceReplica} {inSyncReplica : UInt16} {batch : Batch RawRecords}

/-- **A write of the leader** moves its log end offset past the batch's records, and its high
watermark to the new log end offset when it is its only in-sync replica. -/
theorem leaderWriteBatch_some (h : leaderWriteBatch leader inSyncReplica batch = some leader') :
    leader'.getLeo = leader.getLeo + Int64.ofNat batch.recordsLen ∧ batch.recordsLen ≤ 2 ^ 31 ∧
      leader'.hw = if inSyncReplica = 1 then leader'.getLeo else leader.hw := by
  unfold leaderWriteBatch at h
  split at h
  · next active placed happ =>
    cases h
    obtain ⟨hend, h0⟩ := IndexedSegment.endOffset_appendBatch happ
    exact ⟨hend, (Batch.recordsLen_spec h0).1, rfl⟩
  · cases h

end Write

/-! ### The invariant -/

/-- What holds of the leader along every run from `LeaderReplicaState::new`, for the high watermark
`h₀` it started with. -/
structure LeaderState.Inv (h₀ : Int64) (s : LeaderState) : Prop where
  /-- `in_sync_replica` counts the leader. -/
  inSync : 1 ≤ s.inSyncReplica.toNat
  /-- The leader is its only in-sync replica only when it has no follower. -/
  onlyReplica : s.inSyncReplica = 1 → s.followers = []
  /-- One entry per follower. -/
  keys : (s.followers.map Prod.fst).Nodup
  start : 0 ≤ h₀
  hwGe : h₀ ≤ s.leader.hw
  hwLe : s.leader.hw ≤ s.leader.getLeo
  /-- An entry is unknown or within the leader's log. -/
  entries : ∀ f ∈ s.followers, f.2.leo = -1 ∨ f.2.leo ≤ s.leader.getLeo
  /-- A waiting call read a high watermark of this run, a log end offset within the leader's log,
  and a report not beyond it. -/
  snapshots : ∀ p ∈ s.pending,
    h₀ ≤ p.leaderPos.hw ∧ p.leaderPos.leo ≤ s.leader.getLeo ∧ p.followerPos.leo ≤ p.leaderPos.leo
  /-- A high watermark that moved is reached by `min_lrs` followers. -/
  replicated : s.leader.hw = h₀ ∨
    minLrs s.inSyncReplica s.followers ≤ s.followers.countP fun f => decide (s.leader.hw ≤ f.2.leo)

section Inv

variable {h₀ : Int64} {s : LeaderState}

/-- `LeaderReplicaState::new`, for a leader among at most `u16::MAX` replicas, whose high watermark
lies between 0 and its log end offset. -/
theorem LeaderState.Inv.new {leaderId : SpuId} {replicas : List SpuId} {storage : SourceReplica}
    (hmem : leaderId ∈ replicas) (hlen : replicas.length < 2 ^ 16) (hhw : 0 ≤ storage.hw)
    (hle : storage.hw ≤ storage.getLeo) : (LeaderState.new leaderId replicas storage).Inv storage.hw where
  inSync := by
    have hpos : 0 < replicas.length := List.length_pos_of_mem hmem
    simp only [LeaderState.new, UInt16.toNat_ofNat', Nat.mod_eq_of_lt hlen]
    omega
  onlyReplica := by
    intro h1
    have hone : replicas.length = 1 := by
      have h := congrArg UInt16.toNat h1
      simpa only [LeaderState.new, UInt16.toNat_ofNat', Nat.mod_eq_of_lt hlen, UInt16.toNat_one] using h
    obtain ⟨x, rfl⟩ := List.length_eq_one_iff.mp hone
    obtain rfl := List.mem_singleton.mp hmem
    simp [LeaderState.new, idsToMap]
  keys := by
    simp only [LeaderState.new, idsToMap, List.map_map, Function.comp_def, List.map_id']
    exact (List.nodup_dedup replicas).filter _
  start := hhw
  hwGe := Int64.le_refl _
  hwLe := hle
  entries := by
    intro f hf
    simp only [LeaderState.new, idsToMap, List.mem_map] at hf
    obtain ⟨id, -, rfl⟩ := hf
    exact .inl rfl
  snapshots := by simp [LeaderState.new]
  replicated := .inl rfl

theorem LeaderState.Inv.leo_nonneg (hinv : s.Inv h₀) : 0 ≤ s.leader.getLeo.toInt := by
  have h1 := Int64.le_iff_toInt_le.mp hinv.start
  have h2 := Int64.le_iff_toInt_le.mp hinv.hwGe
  have h3 := Int64.le_iff_toInt_le.mp hinv.hwLe
  simp only [Int64.toInt_zero] at h1
  omega

/-- **A write keeps the invariant**, below `2 ^ 63`: the log end offset moves past the records, and
the high watermark stays or follows it. -/
theorem LeaderState.Inv.produce [Crc32c] (hinv : s.Inv h₀) {batch : Batch RawRecords} {leader' : SourceReplica}
    (h : leaderWriteBatch s.leader s.inSyncReplica batch = some leader')
    (hbound : s.leader.getLeo.toInt + batch.recordsLen < 2 ^ 63) :
    ({ s with leader := leader' } : LeaderState).Inv h₀ ∧ s.leader.hw ≤ leader'.hw ∧
      leader'.getLeo.toInt = s.leader.getLeo.toInt + batch.recordsLen := by
  obtain ⟨hleo, -, hhw⟩ := leaderWriteBatch_some h
  have hleo' : leader'.getLeo.toInt = s.leader.getLeo.toInt + batch.recordsLen := by
    rw [hleo]
    exact Bits.toInt_add_ofNat hinv.leo_nonneg hbound
  have hgrow : s.leader.getLeo ≤ leader'.getLeo := by
    rw [Int64.le_iff_toInt_le, hleo']
    omega
  have hhw' : s.leader.hw ≤ leader'.hw ∧ leader'.hw ≤ leader'.getLeo := by
    rw [hhw]
    split
    · exact ⟨Int64.le_trans hinv.hwLe hgrow, Int64.le_refl _⟩
    · exact ⟨Int64.le_refl _, Int64.le_trans hinv.hwLe hgrow⟩
  refine ⟨⟨hinv.inSync, hinv.onlyReplica, hinv.keys, hinv.start, Int64.le_trans hinv.hwGe hhw'.1, hhw'.2, ?_, ?_, ?_⟩,
    hhw'.1, hleo'⟩
  · intro f hf
    rcases hinv.entries f hf with hunknown | hle
    · exact .inl hunknown
    · exact .inr (Int64.le_trans hle hgrow)
  · intro p hp
    obtain ⟨hsnap, hleoSnap, hpos⟩ := hinv.snapshots p hp
    exact ⟨hsnap, Int64.le_trans hleoSnap hgrow, hpos⟩
  · by_cases hone : s.inSyncReplica = 1
    · right
      simp [hinv.onlyReplica hone, minLrs]
    · rw [hhw, if_neg hone]
      exact hinv.replicated

/-- A report read against the leader's offsets and not newer than them waits with what it read. -/
theorem LeaderState.Inv.report (hinv : s.Inv h₀) {followerId : SpuId} {followerPos : OffsetInfo}
    (hnew : followerPos.newer s.leader.asOffset = false) :
    ({ s with pending := s.pending ++ [⟨followerId, followerPos, s.leader.asOffset⟩] } : LeaderState).Inv h₀ := by
  have hpos : followerPos.leo ≤ s.leader.getLeo := by
    simp only [OffsetInfo.newer, Bool.or_eq_false_iff, decide_eq_false_iff_not] at hnew
    exact Std.not_lt.mp hnew.1
  refine ⟨hinv.inSync, hinv.onlyReplica, hinv.keys, hinv.start, hinv.hwGe, hinv.hwLe, hinv.entries, ?_,
    hinv.replicated⟩
  intro p hp
  rcases List.mem_append.mp hp with hp | hp
  · exact hinv.snapshots p hp
  · rw [List.mem_singleton] at hp
    subst hp
    exact ⟨hinv.hwGe, Int64.le_refl _, hpos⟩

/-- The followers' map after a report under the lock: entries within the leader's log, and every
count of followers at or above an offset at least what it was. -/
theorem LeaderState.Inv.setEntry (hinv : s.Inv h₀) {p : PendingUpdate} (hp : p ∈ s.pending) {current : OffsetInfo}
    (hlook : followerInfo s.followers p.followerId = some current) :
    (∀ f ∈ setFollowerInfo s.followers p.followerId (current.update p.followerPos).2,
        f.2.leo = -1 ∨ f.2.leo ≤ s.leader.getLeo) ∧
      ∀ x : Int64, s.followers.countP (fun f => decide (x ≤ f.2.leo)) ≤
        (setFollowerInfo s.followers p.followerId (current.update p.followerPos).2).countP
          fun f => decide (x ≤ f.2.leo) := by
  obtain ⟨-, hsnap, hpos⟩ := hinv.snapshots p hp
  refine ⟨fun f hf => ?_, fun x => ?_⟩
  · rcases mem_setFollowerInfo hf with hf | rfl
    · exact hinv.entries f hf
    · rcases OffsetInfo.leo_update_cases current p.followerPos with hleo | hleo
      · rw [hleo]
        exact hinv.entries _ (mem_of_followerInfo hlook)
      · rw [hleo]
        exact .inr (Int64.le_trans hpos hsnap)
  · apply TopK.countP_le_of_forall₂ _ (forall₂_setFollowerInfo hinv.keys hlook (OffsetInfo.leo_le_update _ _))
    intro f f' hle hx
    simp only [decide_eq_true_eq] at hx ⊢
    exact Int64.le_trans hx hle

/-- A leader with a follower is not its only in-sync replica, so `min_lrs` counts at least one
follower. -/
theorem LeaderState.Inv.minLrs_pos (hinv : s.Inv h₀) (hne : s.followers ≠ []) :
    0 < minLrs s.inSyncReplica s.followers := by
  have hisr : s.inSyncReplica.toNat ≠ 1 := fun h1 =>
    hne (hinv.onlyReplica (UInt16.toNat_inj.mp (by rw [h1]; rfl)))
  have hsub : (s.inSyncReplica - 1).toNat = s.inSyncReplica.toNat - 1 := by
    rw [UInt16.toNat_sub_of_le]
    · rfl
    · exact UInt16.le_iff_toNat_le.mpr hinv.inSync
  have hlen : 0 < s.followers.length := List.length_pos_iff.mpr hne
  have := hinv.inSync
  simp only [minLrs, hsub]
  omega

/-- **A call taking the lock keeps the invariant and does not lower the high watermark**, although
it computes from the offsets it read before waiting. A high watermark it sets is above the one it
read and reached by `min_lrs` followers; one above what it read and reached by as many is already
among those, so the new one is not below it. -/
theorem LeaderState.Inv.lock (hinv : s.Inv h₀) {i : Nat} {p : PendingUpdate} (hi : s.pending[i]? = some p)
    {changed : Bool} {leader' : SourceReplica} {followers' : Followers}
    (hr : updateFollowerLocked s.leader p.leaderPos s.followers s.inSyncReplica p.followerId p.followerPos =
      (changed, leader', followers')) :
    ({ s with leader := leader', followers := followers', pending := s.pending.eraseIdx i } : LeaderState).Inv h₀ ∧
      s.leader.hw ≤ leader'.hw ∧ leader'.getLeo = s.leader.getLeo := by
  have hp : p ∈ s.pending := List.mem_of_getElem? hi
  obtain ⟨hsnapHw, -, -⟩ := hinv.snapshots p hp
  have hpending : ∀ q ∈ s.pending.eraseIdx i,
      h₀ ≤ q.leaderPos.hw ∧ q.leaderPos.leo ≤ s.leader.getLeo ∧ q.followerPos.leo ≤ q.leaderPos.leo :=
    fun q hq => hinv.snapshots q ((List.eraseIdx_sublist _ _).subset hq)
  rcases updateFollowerLocked_cases s.leader p.leaderPos s.followers s.inSyncReplica p.followerId p.followerPos with
    ⟨hsame, -⟩ | ⟨current, hlook, hset, hleader⟩
  · rw [hr] at hsame
    obtain ⟨rfl, rfl⟩ := Prod.mk.inj hsame
    exact ⟨⟨hinv.inSync, hinv.onlyReplica, hinv.keys, hinv.start, hinv.hwGe, hinv.hwLe, hinv.entries, hpending,
      hinv.replicated⟩, Int64.le_refl _, rfl⟩
  rw [hr] at hset hleader
  dsimp only at hset hleader
  subst hset
  obtain ⟨hentries, hcount⟩ := hinv.setEntry hp hlook
  have hkeys : ((setFollowerInfo s.followers p.followerId (current.update p.followerPos).2).map Prod.fst).Nodup := by
    rw [map_fst_setFollowerInfo]
    exact hinv.keys
  have hminLrs : minLrs s.inSyncReplica (setFollowerInfo s.followers p.followerId (current.update p.followerPos).2) =
      minLrs s.inSyncReplica s.followers := by
    simp only [minLrs, length_setFollowerInfo]
  have honly : s.inSyncReplica = 1 →
      setFollowerInfo s.followers p.followerId (current.update p.followerPos).2 = [] := by
    intro h1
    rw [hinv.onlyReplica h1]
    rfl
  -- the high watermark before the step is still reached by as many followers in the new map
  have hrep : s.leader.hw = h₀ ∨
      minLrs s.inSyncReplica (setFollowerInfo s.followers p.followerId (current.update p.followerPos).2) ≤
        (setFollowerInfo s.followers p.followerId (current.update p.followerPos).2).countP
          fun f => decide (s.leader.hw ≤ f.2.leo) := by
    rcases hinv.replicated with heq | hle
    · exact .inl heq
    · exact .inr (by rw [hminLrs]; exact Nat.le_trans hle (hcount _))
  rcases hleader with rfl | ⟨hw, -, hcompute, rfl⟩
  · exact ⟨⟨hinv.inSync, honly, hkeys, hinv.start, hinv.hwGe, hinv.hwLe, hentries, hpending, hrep⟩,
      Int64.le_refl _, rfl⟩
  have hne : s.followers ≠ [] := by
    intro h
    rw [h] at hlook
    cases hlook
  have hk := hinv.minLrs_pos hne
  rw [← hminLrs] at hk
  obtain ⟨-, -, hpos⟩ := computeHw_spec p.leaderPos hinv.inSync
    (setFollowerInfo s.followers p.followerId (current.update p.followerPos).2)
  obtain ⟨⟨habove, hreach⟩, hmax⟩ := ((hpos hk).2 hw).mp hcompute
  -- a follower reaches the new high watermark, so it lies within the log
  have hwLeo : hw ≤ s.leader.getLeo := by
    obtain ⟨f, hf, hfle⟩ := List.countP_pos_iff.mp (Nat.lt_of_lt_of_le hk hreach)
    simp only [decide_eq_true_eq] at hfle
    rcases hentries f hf with hunknown | hle
    · have h1 := Int64.le_iff_toInt_le.mp hinv.start
      have h2 := Int64.le_iff_toInt_le.mp hsnapHw
      have h3 := Int64.lt_iff_toInt_lt.mp habove
      have h4 := Int64.le_iff_toInt_le.mp hfle
      have hm1 : (-1 : Int64).toInt = -1 := by decide
      rw [hunknown, hm1] at h4
      simp only [Int64.toInt_zero] at h1
      omega
    · exact Int64.le_trans hfle hle
  -- the high watermark before the step: at or below what the call read, or replicated above it
  have hmono : s.leader.hw ≤ hw := by
    by_cases hle : s.leader.hw ≤ p.leaderPos.hw
    · exact Std.le_of_lt (Std.lt_of_le_of_lt hle habove)
    · have hlt : p.leaderPos.hw < s.leader.hw := Std.not_le.mp hle
      rcases hrep with heq | hreplicated
      · exact absurd (heq ▸ hsnapHw) hle
      · exact hmax _ ⟨hlt, hreplicated⟩
  refine ⟨⟨hinv.inSync, honly, hkeys, hinv.start, ?_, ?_, ?_, ?_, .inr ?_⟩, ?_, ?_⟩
  · rw [SourceReplica.hw_updateHighWatermark]
    exact Int64.le_trans hinv.hwGe hmono
  · rw [SourceReplica.hw_updateHighWatermark, SourceReplica.getLeo_updateHighWatermark]
    exact hwLeo
  · rw [SourceReplica.getLeo_updateHighWatermark]
    exact hentries
  · rw [SourceReplica.getLeo_updateHighWatermark]
    exact hpending
  · rw [SourceReplica.hw_updateHighWatermark]
    exact hreach
  · rw [SourceReplica.hw_updateHighWatermark]
    exact hmono
  · exact SourceReplica.getLeo_updateHighWatermark _ _

end Inv

/-! ### Runs -/

section Runs

variable [Crc32c] {h₀ : Int64} {s s' : LeaderState}

/-- One step keeps the invariant, does not lower the high watermark, and moves the log end offset
past the records it writes. -/
theorem LeaderState.Inv.next (hinv : s.Inv h₀) {e : LeaderEvent} (h : s.next e = some s')
    (hbound : s.leader.getLeo.toInt + e.records < 2 ^ 63) :
    s'.Inv h₀ ∧ s.leader.hw ≤ s'.leader.hw ∧ s'.leader.getLeo.toInt = s.leader.getLeo.toInt + e.records := by
  cases e with
  | produce batch =>
    obtain ⟨leader', hw, rfl⟩ := Option.map_eq_some_iff.mp h
    exact hinv.produce hw hbound
  | report followerId followerPos =>
    simp only [LeaderState.next] at h
    split at h
    · cases h
      exact ⟨hinv, Int64.le_refl _, by simp [LeaderEvent.records]⟩
    · next hnew =>
      cases h
      exact ⟨hinv.report (by simpa using hnew), Int64.le_refl _, by simp [LeaderEvent.records]⟩
  | lock i =>
    simp only [LeaderState.next] at h
    split at h
    · cases h
    · next p hi =>
      rcases hr : updateFollowerLocked s.leader p.leaderPos s.followers s.inSyncReplica p.followerId p.followerPos
        with ⟨changed, leader', followers'⟩
      rw [hr] at h
      cases h
      obtain ⟨hinv', hle, hleo⟩ := hinv.lock hi hr
      exact ⟨hinv', hle, by rw [hleo]; simp [LeaderEvent.records]⟩

/-- **A run keeps the invariant** while its writes keep the log end offset below `2 ^ 63`. -/
theorem LeaderState.Inv.run : ∀ {events : List LeaderEvent} {s s' : LeaderState}, s.Inv h₀ →
    s.leader.getLeo.toInt + producedRecords events < 2 ^ 63 → Trace.run LeaderState.next s events = some s' →
    s'.Inv h₀ ∧ s'.leader.getLeo.toInt = s.leader.getLeo.toInt + producedRecords events
  | [], s, s', hinv, _, h => by
    simp only [Trace.run, Option.some.injEq] at h
    subst h
    exact ⟨hinv, by simp [producedRecords]⟩
  | e :: events, s, s', hinv, hbound, h => by
    simp only [Trace.run] at h
    obtain ⟨s1, hs1, hrest⟩ := Option.bind_eq_some_iff.mp h
    have hsum : producedRecords (e :: events) = e.records + producedRecords events := by
      simp [producedRecords]
    rw [hsum] at hbound ⊢
    obtain ⟨hinv1, -, hleo1⟩ := hinv.next hs1 (by omega)
    obtain ⟨hinv', hleo'⟩ := LeaderState.Inv.run hinv1 (by rw [hleo1]; omega) hrest
    exact ⟨hinv', by rw [hleo', hleo1]; omega⟩

/-- A step changes the followers' map only by the report it takes under the lock. -/
theorem LeaderState.next_followerInfo {e : LeaderEvent} (h : s.next e = some s') (id : SpuId) :
    followerInfo s'.followers id = (followerInfo s.followers id).map fun entry =>
      match s.lockedReport e with
      | some p => if id = p.followerId then (entry.update p.followerPos).2 else entry
      | none => entry := by
  cases e with
  | produce batch =>
    obtain ⟨leader', -, rfl⟩ := Option.map_eq_some_iff.mp h
    simp [LeaderState.lockedReport]
  | report followerId followerPos =>
    simp only [LeaderState.next] at h
    split at h <;> cases h <;> simp [LeaderState.lockedReport]
  | lock i =>
    simp only [LeaderState.next] at h
    split at h
    · cases h
    · next p hi =>
      cases h
      rw [updateFollowerLocked_followerInfo]
      simp only [LeaderState.lockedReport, hi]

end Runs

/-! ### A report read before a write -/

/-- A batch of one seven-byte record. -/
def oneRecord : Batch RawRecords :=
  ⟨0, 0, { (default : BatchHeader) with lastOffsetDelta := 0, firstTimestamp := 0, maxTimeStamp := 0 }, 0,
    ⟨[0, 0, 0, 1, 14, 0, 0, 0, 0, 2, 1, 0]⟩⟩

/-- Two one-record batches at offsets 0 and 1 with the high watermark still at 0, as a follower's
replica is when it becomes the leader. -/
def laggingLeader : SourceReplica :=
  ⟨((emptySource.active.appendBatch oneRecord).2.1.appendBatch oneRecord).2.1, 0⟩

/-- Follower `5002` reports offset 1 and its call reads the leader's offsets; a producer then writes
a record, before the call takes the lock. -/
def raceRun : List LeaderEvent := [.report 5002 ⟨0, 1⟩, .produce oneRecord]

end Fluvio.Replication
