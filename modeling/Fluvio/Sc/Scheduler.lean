import Fluvio.Sc.Partition
import Mathlib.Data.Finset.Card
import Mathlib.Data.List.Sort

/-!
Replica assignment on the SC (crates/fluvio-sc/src/controllers/scheduler/partition.rs,
crates/fluvio-sc/src/stores/partition/store.rs, crates/fluvio-sc/src/stores/spu/store.rs).

The scheduler counts, for every SPU, the partitions it leads and follows (`group_by_spu`), and
places each new partition's replicas one at a time: the first on the online SPU with the fewest
leaderships, the others on the online SPUs with the fewest followerships, never twice on one SPU.
Counts are `u16`s, and the scan for the least count starts from `u16::MAX`, so an SPU whose count
reached 65535 is never chosen: a topic whose partitions would take an SPU there is not scheduled.

* `findSuitableSpu_eq_firstMin` — the scan is the first SPU of least count below 65535;
* `Scheduled.run` / `schedule_ok` — every scheduled partition keeps its old replicas or gets as
  many distinct online SPUs as the replication factor, and the counts grow by what was placed;
  while no count can reach 65535 and enough SPUs are online, every partition is scheduled;
* `RoundRobin.run` — from equal leader counts, the leaders go round the online SPUs in id order.

Gathered in `replica_assignment_sound` and `leader_balance`; `manyPartitions_unscheduled` is a
topic left unscheduled by the `u16` counts, and `noReplicas_noLeader` one with no leaders at all.
-/

namespace Fluvio.Sc

/-- What the scheduler reads of an SPU in the SC's store: its id, and whether it is online. -/
structure SpuMetadata where
  id : SpuId
  online : Bool
  deriving DecidableEq, Repr

/-- `SpuLocalStorePolicy::online_spu_ids`. -/
def onlineSpuIds (spus : List SpuMetadata) : List SpuId := (spus.filter (·.online)).map (·.id)

/-- `SpuWeightSelection`. -/
inductive SpuWeightSelection where
  | leader
  | follower
  deriving DecidableEq, Repr

/-- `PartitionCountSpu`: how many partitions an SPU leads and follows. -/
structure PartitionCountSpu where
  leaders : UInt16
  followers : UInt16
  deriving DecidableEq, Repr

namespace PartitionCountSpu

/-- `PartitionCountSpu::default`. -/
def default : PartitionCountSpu := ⟨0, 0⟩

/-- `PartitionCountSpu::leader_weight`. -/
def leaderWeight (c : PartitionCountSpu) : UInt16 := c.leaders

/-- `PartitionCountSpu::follower_weight`. -/
def followerWeight (c : PartitionCountSpu) : UInt16 := c.followers

end PartitionCountSpu

/-- `ReplicaSchedulingGroups`: the counts of every SPU that has any (a `HashMap`). -/
structure ReplicaSchedulingGroups where
  get : SpuId → Option PartitionCountSpu

namespace ReplicaSchedulingGroups

/-- `ReplicaSchedulingGroups::default`. -/
def default : ReplicaSchedulingGroups := ⟨fun _ => none⟩

/-- `HashMap::insert`. -/
def insert (groups : ReplicaSchedulingGroups) (spu : SpuId) (c : PartitionCountSpu) :
    ReplicaSchedulingGroups :=
  ⟨Function.update groups.get spu (some c)⟩

/-- One count of an SPU bumped, from zero for an SPU without counts: the body shared by
`increase_leaders` and `increase_followers`. -/
def increase (groups : ReplicaSchedulingGroups) (bump : PartitionCountSpu → PartitionCountSpu)
    (spu : SpuId) : ReplicaSchedulingGroups :=
  match groups.get spu with
  | some c => groups.insert spu (bump c)
  | none => groups.insert spu (bump .default)

/-- `ReplicaSchedulingGroups::increase_leaders`. -/
def increaseLeaders (groups : ReplicaSchedulingGroups) (spu : SpuId) : ReplicaSchedulingGroups :=
  groups.increase (fun c => { c with leaders := c.leaders + 1 }) spu

/-- `ReplicaSchedulingGroups::increase_followers`. -/
def increaseFollowers (groups : ReplicaSchedulingGroups) (spu : SpuId) : ReplicaSchedulingGroups :=
  groups.increase (fun c => { c with followers := c.followers + 1 }) spu

/-- The weight `find_suitable_spu` reads for an SPU: `0` for an SPU without counts. -/
def candidateWeight (groups : ReplicaSchedulingGroups) (weight : SpuWeightSelection)
    (spuId : SpuId) : UInt16 :=
  match groups.get spuId with
  | some group =>
    match weight with
    | .leader => group.leaderWeight
    | .follower => group.followerWeight
  | none => 0

/-- One SPU of `find_suitable_spu`'s loop. -/
def findSuitableSpuStep (groups : ReplicaSchedulingGroups) (antiAffinity : List SpuId)
    (weight : SpuWeightSelection) (acc : Option SpuId × UInt16) (spuId : SpuId) :
    Option SpuId × UInt16 :=
  if spuId ∈ antiAffinity then acc
  else
    let candidateWeight := groups.candidateWeight weight spuId
    if candidateWeight < acc.2 then (some spuId, candidateWeight) else acc

/-- `ReplicaSchedulingGroups::find_suitable_spu`: the least weight is searched from `u16::MAX`. -/
def findSuitableSpu (groups : ReplicaSchedulingGroups) (spuList antiAffinity : List SpuId)
    (weight : SpuWeightSelection) : Option SpuId :=
  (spuList.foldl (groups.findSuitableSpuStep antiAffinity weight) (none, 65535)).1

end ReplicaSchedulingGroups

/-- `PartitionLocalStorePolicy::group_by_spu`: each partition counts for its leader, and for each
other replica as a follower. -/
def groupBySpu {K : Type} (partitions : List (PartitionMetadata K)) : ReplicaSchedulingGroups :=
  partitions.foldl (fun groups partition =>
    let leader := partition.spec.leader
    partition.spec.replicas.foldl (fun groups followerSpu =>
      if followerSpu ≠ leader then groups.increaseFollowers followerSpu else groups)
      (groups.increaseLeaders leader))
    .default

/-- `PartitionId`. -/
abbrev PartitionId := UInt32

/-- `TopicReplicaParam`, with the fields the scheduler reads. -/
structure TopicReplicaParam where
  partitions : UInt32
  replicationFactor : UInt32
  deriving DecidableEq, Repr

/-- `ReplicaMap`: a `BTreeMap` from partition to replicas, as its entries in key order. -/
abbrev ReplicaMap := List (PartitionId × List SpuId)

namespace ReplicaMap

/-- `BTreeMap::get`. -/
def get (m : ReplicaMap) (k : PartitionId) : Option (List SpuId) := m.lookup k

/-- `BTreeMap::insert`. -/
def insert (k : PartitionId) (v : List SpuId) : ReplicaMap → ReplicaMap
  | [] => [(k, v)]
  | (k', v') :: m =>
    if k < k' then (k, v) :: (k', v') :: m
    else if k = k' then (k, v) :: m
    else (k', v') :: insert k v m

/-- How many partitions of the map an SPU leads. -/
def leaderCount (m : ReplicaMap) (spu : SpuId) : Nat := m.countP fun e => e.2.head? == some spu

end ReplicaMap

/-- `PartitionScheduler`: the SPU store it reads and the counts it keeps. -/
structure PartitionScheduler where
  spus : List SpuMetadata
  schedulingGroups : ReplicaSchedulingGroups

namespace PartitionScheduler

/-- `PartitionScheduler::init`. -/
def init {K : Type} (spus : List SpuMetadata) (partitions : List (PartitionMetadata K)) :
    PartitionScheduler :=
  ⟨spus, groupBySpu partitions⟩

/-- One replica of a new partition (the body of the inner loop): an online SPU not reserved yet,
counted as leader for the first replica and as follower after; the counts at the early return
when there is none. -/
def reserveReplica (onlineSpus : List SpuId) (acc : ReplicaSchedulingGroups × List SpuId)
    (rIdx : Nat) : Except ReplicaSchedulingGroups (ReplicaSchedulingGroups × List SpuId) :=
  match acc.1.findSuitableSpu onlineSpus acc.2 (if rIdx = 0 then .leader else .follower) with
  | some spu =>
    .ok (if rIdx = 0 then acc.1.increaseLeaders spu else acc.1.increaseFollowers spu, acc.2 ++ [spu])
  | none => .error acc.1

/-- The replicas of one new partition. -/
def reserveReplicas (onlineSpus : List SpuId) (groups : ReplicaSchedulingGroups)
    (replicationFactor : Nat) :
    Except ReplicaSchedulingGroups (ReplicaSchedulingGroups × List SpuId) :=
  (List.range replicationFactor).foldlM (reserveReplica onlineSpus) (groups, [])

/-- The replicas the previous map gives a partition, when it gives as many as the factor. -/
def keptReplicas (actual : Option ReplicaMap) (param : TopicReplicaParam) (pIdx : PartitionId) :
    Option (List SpuId) :=
  match actual.bind (ReplicaMap.get · pIdx) with
  | some replicas => if replicas.length = param.replicationFactor.toNat then some replicas else none
  | none => none

/-- One partition of the outer loop. -/
def schedulePartition (onlineSpus : List SpuId) (param : TopicReplicaParam)
    (actual : Option ReplicaMap) (acc : ReplicaSchedulingGroups × ReplicaMap) (pIdx : Nat) :
    Except ReplicaSchedulingGroups (ReplicaSchedulingGroups × ReplicaMap) :=
  -- old partitions are not changed for no reason
  match keptReplicas actual param (UInt32.ofNat pIdx) with
  | some replicas => .ok (acc.1, ReplicaMap.insert (UInt32.ofNat pIdx) replicas acc.2)
  | none => do
    let (groups, reservedSpus) ← reserveReplicas onlineSpus acc.1 param.replicationFactor.toNat
    pure (groups, ReplicaMap.insert (UInt32.ofNat pIdx) reservedSpus acc.2)

/-- `PartitionScheduler::generate_partitions_without_rack`. -/
def generatePartitionsWithoutRack (s : PartitionScheduler) (param : TopicReplicaParam)
    (actual : Option ReplicaMap) : PartitionScheduler × ReplicaMap :=
  -- `sort_unstable`: any sort gives the one sorted order of the ids
  let onlineSpus := (onlineSpuIds s.spus).insertionSort (· ≤ ·)
  match (List.range param.partitions.toNat).foldlM (schedulePartition onlineSpus param actual)
      (s.schedulingGroups, []) with
  | .ok (groups, partitionMap) => ({ s with schedulingGroups := groups }, partitionMap)
  | .error groups => ({ s with schedulingGroups := groups }, [])

/-- `PartitionScheduler::generate_replica_map_for_topic`: nothing is scheduled with fewer SPUs,
online or not, than the replication factor. -/
def generateReplicaMapForTopic (s : PartitionScheduler) (param : TopicReplicaParam)
    (actual : Option ReplicaMap) : PartitionScheduler × ReplicaMap :=
  let spuCount : UInt32 := UInt32.ofNat s.spus.length
  if spuCount < param.replicationFactor then (s, [])
  else s.generatePartitionsWithoutRack param actual

end PartitionScheduler

/-! ### The counts -/

/-- A bind of `Except` succeeds exactly when both parts do. -/
theorem bind_eq_ok_iff {ε α β : Type} {x : Except ε α} {f : α → Except ε β} {b : β} :
    x >>= f = .ok b ↔ ∃ a, x = .ok a ∧ f a = .ok b := by
  cases x <;> simp [bind, Except.bind]

/-- A `u16` below its maximum grows by one without wrapping. -/
theorem toNat_add_one_of_lt {a : UInt16} (h : a < 65535) : (a + 1).toNat = a.toNat + 1 := by
  rw [UInt16.lt_iff_toNat_lt] at h
  rw [UInt16.toNat_add]
  exact Nat.mod_eq_of_lt (by simp at h ⊢; omega)

namespace ReplicaSchedulingGroups

variable (groups : ReplicaSchedulingGroups) (spu x : SpuId)

/-- The partitions an SPU leads, `0` for an SPU without counts. -/
def leaders : UInt16 := ((groups.get x).getD .default).leaders

/-- The partitions an SPU follows, `0` for an SPU without counts. -/
def followers : UInt16 := ((groups.get x).getD .default).followers

theorem get_increase (bump : PartitionCountSpu → PartitionCountSpu) :
    (groups.increase bump spu).get x =
      if x = spu then some (bump ((groups.get spu).getD .default)) else groups.get x := by
  unfold increase insert
  cases groups.get spu <;> by_cases hx : x = spu <;> simp [hx]

@[simp] theorem leaders_increaseLeaders :
    (groups.increaseLeaders spu).leaders x = if x = spu then groups.leaders spu + 1 else groups.leaders x := by
  unfold leaders increaseLeaders
  rw [get_increase]
  by_cases hx : x = spu <;> simp [hx]

@[simp] theorem followers_increaseLeaders :
    (groups.increaseLeaders spu).followers x = groups.followers x := by
  unfold followers increaseLeaders
  rw [get_increase]
  by_cases hx : x = spu <;> simp [hx]

@[simp] theorem leaders_increaseFollowers :
    (groups.increaseFollowers spu).leaders x = groups.leaders x := by
  unfold leaders increaseFollowers
  rw [get_increase]
  by_cases hx : x = spu <;> simp [hx]

@[simp] theorem followers_increaseFollowers :
    (groups.increaseFollowers spu).followers x =
      if x = spu then groups.followers spu + 1 else groups.followers x := by
  unfold followers increaseFollowers
  rw [get_increase]
  by_cases hx : x = spu <;> simp [hx]

theorem candidateWeight_leader : groups.candidateWeight .leader x = groups.leaders x := by
  unfold candidateWeight leaders
  cases groups.get x <;> rfl

theorem candidateWeight_follower : groups.candidateWeight .follower x = groups.followers x := by
  unfold candidateWeight followers
  cases groups.get x <;> rfl

/-! ### The least weight -/

variable {groups} {spu x} {l antiAffinity : List SpuId} {weight : SpuWeightSelection}

/-- What `find_suitable_spu` ranks an SPU by: its weight, for an SPU not reserved whose weight is
below the `u16::MAX` the scan starts from. -/
def suitableWeight (groups : ReplicaSchedulingGroups) (antiAffinity : List SpuId)
    (weight : SpuWeightSelection) (spuId : SpuId) : Option UInt16 :=
  if spuId ∉ antiAffinity ∧ groups.candidateWeight weight spuId < 65535 then
    some (groups.candidateWeight weight spuId)
  else none

/-- **`find_suitable_spu` is a first-minimum scan**: the first SPU of least weight below 65535. -/
theorem findSuitableSpu_eq_firstMin :
    groups.findSuitableSpu l antiAffinity weight =
      (FirstMin.firstMin (groups.suitableWeight antiAffinity weight) l).map Prod.fst := by
  -- the loop is a sentinel scan of the weights of the SPUs not reserved
  have hstep : groups.findSuitableSpuStep antiAffinity weight =
      FirstMin.sentinelStep fun spuId =>
        if spuId ∈ antiAffinity then none else some (groups.candidateWeight weight spuId) := by
    funext acc spuId
    unfold findSuitableSpuStep FirstMin.sentinelStep
    by_cases h : spuId ∈ antiAffinity <;> simp [h]
  have hscore : (fun spuId => (if spuId ∈ antiAffinity then none
      else some (groups.candidateWeight weight spuId)).filter fun w => decide (w < 65535)) =
      groups.suitableWeight antiAffinity weight := by
    funext spuId
    unfold suitableWeight
    by_cases h : spuId ∈ antiAffinity <;> simp [h, Option.filter_some]
  rw [findSuitableSpu, hstep, FirstMin.foldl_sentinelStep, hscore]

theorem findSuitableSpu_some (h : groups.findSuitableSpu l antiAffinity weight = some spu) :
    spu ∈ l ∧ spu ∉ antiAffinity ∧ groups.candidateWeight weight spu < 65535 := by
  rw [findSuitableSpu_eq_firstMin] at h
  obtain ⟨⟨a, w⟩, hf, rfl⟩ := Option.map_eq_some_iff.mp h
  have hm := FirstMin.firstMin_isFirstMin hf
  obtain ⟨l₁, l₂, hl, -⟩ := hm.split
  have hs := hm.score_eq
  unfold suitableWeight at hs
  by_cases hc : a ∉ antiAffinity ∧ groups.candidateWeight weight a < 65535
  · exact ⟨by rw [hl]; simp, hc.1, hc.2⟩
  · rw [if_neg hc] at hs
    cases hs

/-- An SPU not reserved with a weight below 65535 is enough for the scan to find one. -/
theorem findSuitableSpu_isSome (hx : x ∈ l) (hna : x ∉ antiAffinity)
    (hw : groups.candidateWeight weight x < 65535) :
    ∃ spu, groups.findSuitableSpu l antiAffinity weight = some spu := by
  rw [findSuitableSpu_eq_firstMin]
  cases hf : FirstMin.firstMin (groups.suitableWeight antiAffinity weight) l with
  | none =>
    have := FirstMin.firstMin_eq_none.mp hf x hx
    simp [suitableWeight, hna, hw] at this
  | some p => exact ⟨p.1, rfl⟩

/-- An SPU at weight 65535 is never found. -/
theorem findSuitableSpu_eq_none
    (h : ∀ x ∈ l, x ∉ antiAffinity → groups.candidateWeight weight x = 65535) :
    groups.findSuitableSpu l antiAffinity weight = none := by
  rw [findSuitableSpu_eq_firstMin, Option.map_eq_none_iff, FirstMin.firstMin_eq_none]
  intro x hx
  unfold suitableWeight
  by_cases hna : x ∈ antiAffinity
  · simp [hna]
  · simp [hna, h x hx hna]

end ReplicaSchedulingGroups

/-! ### The replicas of one partition -/

namespace PartitionScheduler

open ReplicaSchedulingGroups

/-- What the inner loop has done once it reserved `reserved`: distinct online SPUs, the first
counted as leader and the others as followers. -/
structure Reserved (onlineSpus : List SpuId) (groups groups' : ReplicaSchedulingGroups)
    (reserved : List SpuId) : Prop where
  nodup : reserved.Nodup
  online : ∀ x ∈ reserved, x ∈ onlineSpus
  leaders : ∀ x, (groups'.leaders x).toNat =
    (groups.leaders x).toNat + if reserved.head? = some x then 1 else 0
  followers : ∀ x, (groups'.followers x).toNat =
    (groups.followers x).toNat + if x ∈ reserved.tail then 1 else 0

variable {onlineSpus : List SpuId} {groups groups' groups'' : ReplicaSchedulingGroups}
  {reserved reserved' : List SpuId}

theorem Reserved.nil (onlineSpus : List SpuId) (groups : ReplicaSchedulingGroups) :
    Reserved onlineSpus groups groups [] :=
  ⟨List.nodup_nil, fun _ h => (List.not_mem_nil h).elim, fun _ => by simp, fun _ => by simp⟩

/-- An SPU not reserved keeps its counts. -/
theorem Reserved.leaders_of_not_mem (h : Reserved onlineSpus groups groups' reserved) {x : SpuId}
    (hx : x ∉ reserved) : groups'.leaders x = groups.leaders x := by
  have hhead : reserved.head? ≠ some x := fun he => hx (List.mem_of_head? he)
  have := h.leaders x
  rw [if_neg hhead, Nat.add_zero] at this
  exact UInt16.toNat_inj.mp this

theorem Reserved.followers_of_not_mem (h : Reserved onlineSpus groups groups' reserved) {x : SpuId}
    (hx : x ∉ reserved) : groups'.followers x = groups.followers x := by
  have htail : x ∉ reserved.tail := fun ht => hx (List.mem_of_mem_tail ht)
  have := h.followers x
  rw [if_neg htail, Nat.add_zero] at this
  exact UInt16.toNat_inj.mp this

/-- The first replica, counted as leader. -/
theorem Reserved.first (h : Reserved onlineSpus groups groups' []) {spu : SpuId}
    (hmem : spu ∈ onlineSpus) (hw : groups'.leaders spu < 65535) :
    Reserved onlineSpus groups (groups'.increaseLeaders spu) [spu] := by
  refine ⟨List.nodup_cons.mpr ⟨List.not_mem_nil, List.nodup_nil⟩,
    fun x hx => by rw [List.mem_singleton.mp hx]; exact hmem, fun x => ?_, fun x => ?_⟩
  · have hx0 := h.leaders x
    simp only [List.head?_nil, reduceCtorEq, if_false, Nat.add_zero] at hx0
    rw [leaders_increaseLeaders]
    by_cases hx : x = spu
    · subst hx
      simp [toNat_add_one_of_lt hw, hx0]
    · simp [hx, Ne.symm hx, hx0]
  · simpa using h.followers x

/-- A further replica, on an SPU not reserved yet, counted as follower. -/
theorem Reserved.next (h : Reserved onlineSpus groups groups' reserved) (hne : reserved ≠ [])
    {spu : SpuId} (hmem : spu ∈ onlineSpus) (hna : spu ∉ reserved)
    (hw : groups'.followers spu < 65535) :
    Reserved onlineSpus groups (groups'.increaseFollowers spu) (reserved ++ [spu]) := by
  refine ⟨?_, fun x hx => ?_, fun x => ?_, fun x => ?_⟩
  · exact List.nodup_append.mpr ⟨h.nodup, List.nodup_cons.mpr ⟨List.not_mem_nil, List.nodup_nil⟩,
      fun a ha b hb => by rw [List.mem_singleton.mp hb]; rintro rfl; exact hna ha⟩
  · rcases List.mem_append.mp hx with hx | hx
    · exact h.online x hx
    · rw [List.mem_singleton.mp hx]
      exact hmem
  · rw [leaders_increaseFollowers, h.leaders x, List.head?_append_of_ne_nil _ hne]
  · -- the new follower is counted once, the others as before
    rw [followers_increaseFollowers, List.tail_append_of_ne_nil hne]
    by_cases hx : x = spu
    · subst hx
      have hnt : x ∉ reserved.tail := fun ht => hna (List.mem_of_mem_tail ht)
      simp only [if_true, toNat_add_one_of_lt hw, h.followers x, if_neg hnt, List.mem_append,
        List.mem_singleton, or_true]
    · simp only [hx, if_false, h.followers x, List.mem_append, List.mem_singleton, or_false]

/-- **One replica**: the SPU found is online and not reserved yet, and only its count grows. -/
theorem Reserved.reserveReplica (h : Reserved onlineSpus groups groups' reserved) {k : Nat}
    (hk : reserved.length = k)
    (hr : reserveReplica onlineSpus (groups', reserved) k = .ok (groups'', reserved')) :
    Reserved onlineSpus groups groups'' reserved' ∧ reserved'.length = k + 1 := by
  unfold PartitionScheduler.reserveReplica at hr
  cases hf : groups'.findSuitableSpu onlineSpus reserved (if k = 0 then .leader else .follower) with
  | none => simp only [hf] at hr; cases hr
  | some spu =>
    simp only [hf, Except.ok.injEq, Prod.mk.injEq] at hr
    obtain ⟨rfl, rfl⟩ := hr
    obtain ⟨hmem, hna, hw⟩ := findSuitableSpu_some hf
    refine ⟨?_, by simp [hk]⟩
    by_cases hk0 : k = 0
    · subst hk0
      obtain rfl := List.length_eq_zero_iff.mp hk
      simp only [if_pos, candidateWeight_leader, List.nil_append] at hw ⊢
      exact h.first hmem hw
    · have hne : reserved ≠ [] := by rintro rfl; exact hk0 hk.symm
      simp only [if_neg hk0, candidateWeight_follower] at hw ⊢
      exact h.next hne hmem hna hw

theorem reserveReplicas_succ (k : Nat) : reserveReplicas onlineSpus groups (k + 1) =
    reserveReplicas onlineSpus groups k >>= fun acc => reserveReplica onlineSpus acc k := by
  simp only [reserveReplicas, List.range_succ, List.foldlM_append, List.foldlM_cons,
    List.foldlM_nil, bind_pure]

/-- **The inner loop**: whatever it returns is as many reserved replicas as asked. -/
theorem reserveReplicas_spec {k : Nat}
    (h : reserveReplicas onlineSpus groups k = .ok (groups', reserved)) :
    Reserved onlineSpus groups groups' reserved ∧ reserved.length = k := by
  induction k generalizing groups' reserved with
  | zero =>
    simp only [reserveReplicas, List.range_zero, List.foldlM_nil, pure, Except.pure,
      Except.ok.injEq, Prod.mk.injEq] at h
    obtain ⟨rfl, rfl⟩ := h
    exact ⟨.nil onlineSpus groups, rfl⟩
  | succ k ih =>
    rw [reserveReplicas_succ, bind_eq_ok_iff] at h
    obtain ⟨⟨g₁, r₁⟩, h₁, h₂⟩ := h
    obtain ⟨hres, hlen⟩ := ih h₁
    exact hres.reserveReplica hlen h₂

/-- More distinct online SPUs than replicas reserved leave one not reserved. -/
theorem exists_mem_not_mem {reserved : List SpuId} (hnd : reserved.Nodup)
    (hlt : reserved.length < onlineSpus.toFinset.card) : ∃ x ∈ onlineSpus, x ∉ reserved := by
  by_contra hall
  have hsub : onlineSpus.toFinset ⊆ reserved.toFinset := fun x hx =>
    List.mem_toFinset.mpr (by
      by_contra hxr
      exact hall ⟨x, List.mem_toFinset.mp hx, hxr⟩)
  have := Finset.card_le_card hsub
  rw [List.toFinset_card_of_nodup hnd] at this
  omega

/-- **The inner loop succeeds** while enough distinct SPUs are online and none is at 65535. -/
theorem reserveReplicas_ok {k : Nat} (hk : k ≤ onlineSpus.toFinset.card)
    (hw : ∀ x ∈ onlineSpus, groups.leaders x < 65535 ∧ groups.followers x < 65535) :
    ∃ groups' reserved, reserveReplicas onlineSpus groups k = .ok (groups', reserved) := by
  induction k with
  | zero => exact ⟨groups, [], rfl⟩
  | succ k ih =>
    obtain ⟨g₁, r₁, h₁⟩ := ih (by omega)
    obtain ⟨hres, hlen⟩ := reserveReplicas_spec h₁
    obtain ⟨x, hx, hxr⟩ : ∃ x ∈ onlineSpus, x ∉ r₁ := exists_mem_not_mem hres.nodup (by omega)
    -- an SPU not reserved still has the counts it started with
    have hwx : g₁.candidateWeight (if k = 0 then .leader else .follower) x < 65535 := by
      by_cases hk0 : k = 0
      · rw [if_pos hk0, candidateWeight_leader, hres.leaders_of_not_mem hxr]
        exact (hw x hx).1
      · rw [if_neg hk0, candidateWeight_follower, hres.followers_of_not_mem hxr]
        exact (hw x hx).2
    obtain ⟨spu, hspu⟩ := findSuitableSpu_isSome hx hxr hwx
    refine ⟨if k = 0 then g₁.increaseLeaders spu else g₁.increaseFollowers spu, r₁ ++ [spu], ?_⟩
    rw [reserveReplicas_succ, h₁]
    simp only [bind, Except.bind, PartitionScheduler.reserveReplica, hspu]

/-- The first replica reserved is the SPU the leader scan finds. -/
theorem head_reserveReplicas {k : Nat}
    (h : reserveReplicas onlineSpus groups (k + 1) = .ok (groups', reserved)) :
    reserved.head? = groups.findSuitableSpu onlineSpus [] .leader := by
  induction k generalizing groups' reserved with
  | zero =>
    rw [reserveReplicas_succ] at h
    simp only [reserveReplicas, List.range_zero, List.foldlM_nil, pure, Except.pure, bind,
      Except.bind, PartitionScheduler.reserveReplica, if_pos] at h
    cases hf : groups.findSuitableSpu onlineSpus [] .leader with
    | none => simp only [hf] at h; cases h
    | some spu =>
      simp only [hf, Except.ok.injEq, Prod.mk.injEq] at h
      rw [← h.2]
      rfl
  | succ k ih =>
    rw [reserveReplicas_succ, bind_eq_ok_iff] at h
    obtain ⟨⟨g₁, r₁⟩, h₁, h₂⟩ := h
    have hne : r₁ ≠ [] := by
      have := (reserveReplicas_spec h₁).2
      rintro rfl
      cases this
    unfold PartitionScheduler.reserveReplica at h₂
    cases hf : g₁.findSuitableSpu onlineSpus r₁ (if k + 1 = 0 then .leader else .follower) with
    | none => simp only [hf] at h₂; cases h₂
    | some spu =>
      simp only [hf, Except.ok.injEq, Prod.mk.injEq] at h₂
      rw [← h₂.2, List.head?_append_of_ne_nil _ hne, ih h₁]

end PartitionScheduler

/-! ### The partitions of a topic -/

/-- A loop over `0..i+1` is the loop over `0..i` and one more round. -/
theorem foldlM_range_succ {M : Type → Type} [Monad M] [LawfulMonad M] {β : Type}
    (f : β → Nat → M β) (b : β) (i : Nat) :
    (List.range (i + 1)).foldlM f b = (List.range i).foldlM f b >>= fun acc => f acc i := by
  simp only [List.range_succ, List.foldlM_append, List.foldlM_cons, List.foldlM_nil, bind_pure]

/-- A key above every key of the map is inserted last. -/
theorem ReplicaMap.insert_of_lt {m : ReplicaMap} {k : PartitionId} (v : List SpuId)
    (h : ∀ e ∈ m, e.1 < k) : ReplicaMap.insert k v m = m ++ [(k, v)] := by
  induction m with
  | nil => rfl
  | cons e m ih =>
    obtain ⟨k', v'⟩ := e
    have hk : k'.toNat < k.toNat := UInt32.lt_iff_toNat_lt.mp (h _ List.mem_cons_self)
    have hnlt : ¬ k < k' := fun h' => by rw [UInt32.lt_iff_toNat_lt] at h'; omega
    have hne : k ≠ k' := fun h' => by rw [h'] at hk; omega
    rw [ReplicaMap.insert, if_neg hnlt, if_neg hne, ih fun e he => h e (List.mem_cons_of_mem _ he)]
    rfl

namespace PartitionScheduler

open ReplicaSchedulingGroups

variable {onlineSpus : List SpuId} {param : TopicReplicaParam} {actual : Option ReplicaMap}
  {groups groups' groups'' : ReplicaSchedulingGroups} {m m' : ReplicaMap}

/-- Whether a partition of the map was placed anew, rather than kept from the previous map. -/
def fresh (actual : Option ReplicaMap) (param : TopicReplicaParam) (e : PartitionId × List SpuId) :
    Bool :=
  (keptReplicas actual param e.1).isNone

/-- What the outer loop has done after the partitions `0..i`: each kept from the previous map or
placed on as many distinct online SPUs as the factor asks, and the counts grown by what was
placed anew. -/
structure Scheduled (onlineSpus : List SpuId) (param : TopicReplicaParam)
    (actual : Option ReplicaMap) (groups groups' : ReplicaSchedulingGroups) (i : Nat)
    (m : ReplicaMap) : Prop where
  keys : m.map Prod.fst = (List.range i).map UInt32.ofNat
  entries : ∀ e ∈ m, keptReplicas actual param e.1 = some e.2 ∨
    (keptReplicas actual param e.1 = none ∧ e.2.length = param.replicationFactor.toNat ∧
      e.2.Nodup ∧ ∀ x ∈ e.2, x ∈ onlineSpus)
  leaders : ∀ x, (groups'.leaders x).toNat =
    (groups.leaders x).toNat + m.countP fun e => fresh actual param e && e.2.head? == some x
  followers : ∀ x, (groups'.followers x).toNat =
    (groups.followers x).toNat + m.countP fun e => fresh actual param e && e.2.tail.contains x

theorem Scheduled.length (h : Scheduled onlineSpus param actual groups groups' i m) :
    m.length = i := by
  simpa using congrArg List.length h.keys

/-- **One partition** of the outer loop keeps what the loop has done. -/
theorem Scheduled.step {i : Nat}
    (h : Scheduled onlineSpus param actual groups groups' i m) (hi : i < 2 ^ 32)
    (hs : schedulePartition onlineSpus param actual (groups', m) i = .ok (groups'', m')) :
    Scheduled onlineSpus param actual groups groups'' (i + 1) m' := by
  -- the new key is above every key so far, so it goes last
  have hlast : ∀ v, ReplicaMap.insert (UInt32.ofNat i) v m = m ++ [(UInt32.ofNat i, v)] := by
    intro v
    refine ReplicaMap.insert_of_lt v fun e he => ?_
    have hkey : e.1 ∈ m.map Prod.fst := List.mem_map_of_mem he
    rw [h.keys, List.mem_map] at hkey
    obtain ⟨j, hj, hje⟩ := hkey
    rw [List.mem_range] at hj
    rw [← hje, UInt32.lt_iff_toNat_lt, UInt32.toNat_ofNat', UInt32.toNat_ofNat',
      Nat.mod_eq_of_lt (by omega), Nat.mod_eq_of_lt hi]
    exact hj
  have hkeys : ∀ v, (m ++ [(UInt32.ofNat i, v)]).map Prod.fst =
      (List.range (i + 1)).map UInt32.ofNat := by
    intro v
    rw [List.map_append, h.keys, List.range_succ, List.map_append]
    rfl
  unfold PartitionScheduler.schedulePartition at hs
  cases hk : keptReplicas actual param (UInt32.ofNat i) with
  | some replicas =>
    -- a kept partition: nothing is counted
    simp only [hk, Except.ok.injEq, Prod.mk.injEq] at hs
    obtain ⟨rfl, rfl⟩ := hs
    have hnf : fresh actual param (UInt32.ofNat i, replicas) = false := by simp [fresh, hk]
    refine ⟨by rw [hlast]; exact hkeys replicas, fun e he => ?_, fun x => ?_, fun x => ?_⟩
    · rw [hlast] at he
      rcases List.mem_append.mp he with he | he
      · exact h.entries e he
      · rw [List.mem_singleton.mp he]
        exact .inl hk
    · rw [hlast, List.countP_append, h.leaders x]
      simp [hnf]
    · rw [hlast, List.countP_append, h.followers x]
      simp [hnf]
  | none =>
    -- a new partition: its replicas are counted
    simp only [hk, bind_eq_ok_iff] at hs
    obtain ⟨⟨g₁, r₁⟩, hr, hpure⟩ := hs
    simp only [pure, Except.pure, Except.ok.injEq, Prod.mk.injEq] at hpure
    obtain ⟨rfl, rfl⟩ := hpure
    obtain ⟨hres, hlen⟩ := reserveReplicas_spec hr
    have hf : fresh actual param (UInt32.ofNat i, r₁) = true := by simp [fresh, hk]
    refine ⟨by rw [hlast]; exact hkeys r₁, fun e he => ?_, fun x => ?_, fun x => ?_⟩
    · rw [hlast] at he
      rcases List.mem_append.mp he with he | he
      · exact h.entries e he
      · rw [List.mem_singleton.mp he]
        exact .inr ⟨hk, hlen, hres.nodup, hres.online⟩
    · rw [hlast, List.countP_append, hres.leaders x, h.leaders x]
      by_cases hx : r₁.head? = some x <;> simp [hf, hx, Nat.add_assoc]
    · rw [hlast, List.countP_append, hres.followers x, h.followers x]
      by_cases hx : x ∈ r₁.tail <;> simp [hf, hx, Nat.add_assoc]

/-- **The outer loop**: whatever it returns is the partitions `0..i`, scheduled. -/
theorem Scheduled.run {i : Nat} (hi : i ≤ 2 ^ 32)
    (h : (List.range i).foldlM (schedulePartition onlineSpus param actual) (groups, []) =
      .ok (groups', m)) :
    Scheduled onlineSpus param actual groups groups' i m := by
  induction i generalizing groups' m with
  | zero =>
    simp only [List.range_zero, List.foldlM_nil, pure, Except.pure, Except.ok.injEq,
      Prod.mk.injEq] at h
    obtain ⟨rfl, rfl⟩ := h
    exact ⟨rfl, fun _ h => (List.not_mem_nil h).elim, fun _ => by simp, fun _ => by simp⟩
  | succ i ih =>
    rw [foldlM_range_succ, bind_eq_ok_iff] at h
    obtain ⟨⟨g₁, m₁⟩, h₁, h₂⟩ := h
    exact (ih (by omega) h₁).step (by omega) h₂

/-- No online SPU's count can reach 65535 within `p` more partitions. -/
def Unsaturated (groups : ReplicaSchedulingGroups) (onlineSpus : List SpuId) (p : Nat) : Prop :=
  ∀ x ∈ onlineSpus, (groups.leaders x).toNat + p ≤ 65535 ∧ (groups.followers x).toNat + p ≤ 65535

instance (groups : ReplicaSchedulingGroups) (onlineSpus : List SpuId) (p : Nat) :
    Decidable (Unsaturated groups onlineSpus p) :=
  -- decided along the list, also where the ids form a finite type
  List.decidableBAll _ onlineSpus

/-- **The outer loop succeeds** while enough distinct SPUs are online and no count can reach
65535. -/
theorem schedule_ok {i : Nat} (hi : i ≤ 2 ^ 32)
    (hcard : param.replicationFactor.toNat ≤ onlineSpus.toFinset.card)
    (hsat : Unsaturated groups onlineSpus i) :
    ∃ groups' m, (List.range i).foldlM (schedulePartition onlineSpus param actual) (groups, []) =
      .ok (groups', m) := by
  induction i with
  | zero => exact ⟨groups, [], rfl⟩
  | succ i ih =>
    obtain ⟨g₁, m₁, h₁⟩ := ih (by omega) fun x hx =>
      ⟨by have := (hsat x hx).1; omega, by have := (hsat x hx).2; omega⟩
    have hsch := Scheduled.run (by omega) h₁
    -- after `i` partitions every count grew by at most `i`, so none is at 65535 yet
    have hw : ∀ x ∈ onlineSpus, g₁.leaders x < 65535 ∧ g₁.followers x < 65535 := by
      intro x hx
      have hl : (m₁.countP fun e => fresh actual param e && e.2.head? == some x) ≤ m₁.length :=
        List.countP_le_length
      have hf : (m₁.countP fun e => fresh actual param e && e.2.tail.contains x) ≤ m₁.length :=
        List.countP_le_length
      have hlen := hsch.length
      have := hsat x hx
      rw [UInt16.lt_iff_toNat_lt, UInt16.lt_iff_toNat_lt, hsch.leaders x, hsch.followers x]
      simp only [UInt16.reduceToNat]
      omega
    rw [foldlM_range_succ, h₁]
    simp only [bind, Except.bind]
    unfold PartitionScheduler.schedulePartition
    cases hk : keptReplicas actual param (UInt32.ofNat i) with
    | some replicas => exact ⟨_, _, rfl⟩
    | none =>
      obtain ⟨g₂, r₂, h₂⟩ := reserveReplicas_ok hcard hw
      simp only [h₂, bind, Except.bind, pure, Except.pure]
      exact ⟨_, _, rfl⟩

end PartitionScheduler

namespace PartitionScheduler

open ReplicaSchedulingGroups

variable (s : PartitionScheduler) (param : TopicReplicaParam) (actual : Option ReplicaMap)

/-- The SPUs the loops scan: the online ones, sorted. -/
theorem mem_sortedOnline {x : SpuId} :
    x ∈ (onlineSpuIds s.spus).insertionSort (· ≤ ·) ↔ x ∈ onlineSpuIds s.spus :=
  (List.perm_insertionSort _ _).mem_iff

theorem generatePartitionsWithoutRack_eq : s.generatePartitionsWithoutRack param actual =
    match (List.range param.partitions.toNat).foldlM
        (schedulePartition ((onlineSpuIds s.spus).insertionSort (· ≤ ·)) param actual)
        (s.schedulingGroups, []) with
    | .ok (groups, partitionMap) => ({ s with schedulingGroups := groups }, partitionMap)
    | .error groups => ({ s with schedulingGroups := groups }, []) := rfl

/-- What `generate_partitions_without_rack` returns: nothing, or every partition scheduled. -/
theorem generatePartitionsWithoutRack_spec :
    (s.generatePartitionsWithoutRack param actual).2 = [] ∨
      Scheduled ((onlineSpuIds s.spus).insertionSort (· ≤ ·)) param actual s.schedulingGroups
        (s.generatePartitionsWithoutRack param actual).1.schedulingGroups param.partitions.toNat
        (s.generatePartitionsWithoutRack param actual).2 := by
  rw [generatePartitionsWithoutRack_eq]
  cases h : (List.range param.partitions.toNat).foldlM
      (schedulePartition ((onlineSpuIds s.spus).insertionSort (· ≤ ·)) param actual)
      (s.schedulingGroups, []) with
  | error g => exact .inl rfl
  | ok r =>
    obtain ⟨g, m⟩ := r
    exact .inr (Scheduled.run (UInt32.toNat_lt _).le h)

/-- A loop that returns early leaves the topic with the empty map. -/
theorem generatePartitionsWithoutRack_of_error {g : ReplicaSchedulingGroups}
    (h : (List.range param.partitions.toNat).foldlM
      (schedulePartition ((onlineSpuIds s.spus).insertionSort (· ≤ ·)) param actual)
      (s.schedulingGroups, []) = .error g) :
    (s.generatePartitionsWithoutRack param actual).2 = [] := by
  rw [generatePartitionsWithoutRack_eq, h]

/-- A loop that completes gives the topic its map, and the scheduler its counts. -/
theorem generatePartitionsWithoutRack_of_ok {g : ReplicaSchedulingGroups} {m : ReplicaMap}
    (h : (List.range param.partitions.toNat).foldlM
      (schedulePartition ((onlineSpuIds s.spus).insertionSort (· ≤ ·)) param actual)
      (s.schedulingGroups, []) = .ok (g, m)) :
    s.generatePartitionsWithoutRack param actual = ({ s with schedulingGroups := g }, m) := by
  rw [generatePartitionsWithoutRack_eq, h]

/-- While enough distinct SPUs are online and no count can reach 65535,
`generate_partitions_without_rack` schedules every partition. -/
theorem generatePartitionsWithoutRack_ok
    (hcard : param.replicationFactor.toNat ≤ (onlineSpuIds s.spus).toFinset.card)
    (hsat : Unsaturated s.schedulingGroups (onlineSpuIds s.spus) param.partitions.toNat) :
    Scheduled ((onlineSpuIds s.spus).insertionSort (· ≤ ·)) param actual s.schedulingGroups
      (s.generatePartitionsWithoutRack param actual).1.schedulingGroups param.partitions.toNat
      (s.generatePartitionsWithoutRack param actual).2 := by
  have hcard' : param.replicationFactor.toNat ≤
      ((onlineSpuIds s.spus).insertionSort (· ≤ ·)).toFinset.card := by
    rwa [List.toFinset_eq_of_perm _ _ (List.perm_insertionSort _ _)]
  have hsat' : Unsaturated s.schedulingGroups ((onlineSpuIds s.spus).insertionSort (· ≤ ·))
      param.partitions.toNat := fun x hx => hsat x ((mem_sortedOnline s).mp hx)
  obtain ⟨g, m, h⟩ : ∃ g m, (List.range param.partitions.toNat).foldlM
      (schedulePartition ((onlineSpuIds s.spus).insertionSort (· ≤ ·)) param actual)
      (s.schedulingGroups, []) = .ok (g, m) :=
    schedule_ok (UInt32.toNat_lt _).le hcard' hsat'
  rw [generatePartitionsWithoutRack_eq, h]
  exact Scheduled.run (UInt32.toNat_lt _).le h

theorem generateReplicaMapForTopic_eq : s.generateReplicaMapForTopic param actual =
    if UInt32.ofNat s.spus.length < param.replicationFactor then (s, [])
    else s.generatePartitionsWithoutRack param actual := rfl

/-- **Replica assignment**: the map for a topic is empty, or has a key for each partition, each
kept from the previous map when that had as many replicas as the factor, and otherwise as many
distinct online SPUs as the factor; and it is not empty while there are as many SPUs as the
factor, as many distinct online ones, and no SPU's count can reach 65535. -/
theorem replica_assignment_sound {K : Type} (spus : List SpuMetadata)
    (partitions : List (PartitionMetadata K)) :
    (((init spus partitions).generateReplicaMapForTopic param actual).2 = [] ∨
      ((init spus partitions).generateReplicaMapForTopic param actual).2.map Prod.fst =
          (List.range param.partitions.toNat).map UInt32.ofNat ∧
        ∀ e ∈ ((init spus partitions).generateReplicaMapForTopic param actual).2,
          keptReplicas actual param e.1 = some e.2 ∨
          (keptReplicas actual param e.1 = none ∧ e.2.length = param.replicationFactor.toNat ∧
            e.2.Nodup ∧ ∀ x ∈ e.2, x ∈ onlineSpuIds spus)) ∧
    (param.replicationFactor ≤ UInt32.ofNat spus.length →
      param.replicationFactor.toNat ≤ (onlineSpuIds spus).toFinset.card →
      Unsaturated (groupBySpu partitions) (onlineSpuIds spus) param.partitions.toNat →
      ((init spus partitions).generateReplicaMapForTopic param actual).2.map Prod.fst =
        (List.range param.partitions.toNat).map UInt32.ofNat) := by
  rw [generateReplicaMapForTopic_eq]
  constructor
  · by_cases hc : UInt32.ofNat (init spus partitions).spus.length < param.replicationFactor
    · exact .inl (by rw [if_pos hc])
    rw [if_neg hc]
    rcases generatePartitionsWithoutRack_spec (init spus partitions) param actual with h | h
    · exact .inl h
    · refine .inr ⟨h.keys, fun e he => (h.entries e he).imp_right ?_⟩
      rintro ⟨hk, hlen, hnd, hon⟩
      exact ⟨hk, hlen, hnd, fun x hx => (mem_sortedOnline _).mp (hon x hx)⟩
  · intro hcount hcard hsat
    have hc : ¬ UInt32.ofNat (init spus partitions).spus.length < param.replicationFactor :=
      UInt32.not_lt.mpr hcount
    rw [if_neg hc]
    exact (generatePartitionsWithoutRack_ok (init spus partitions) param actual hcard hsat).keys

end PartitionScheduler

/-- Two online SPUs and a topic of two partitions with one replica each. -/
theorem twoSpus_scheduled :
    (1 : UInt32) ≤ UInt32.ofNat [(⟨0, true⟩ : SpuMetadata), ⟨1, true⟩].length ∧
    (1 : UInt32).toNat ≤ (onlineSpuIds [⟨0, true⟩, ⟨1, true⟩]).toFinset.card ∧
    PartitionScheduler.Unsaturated (groupBySpu ([] : List (PartitionMetadata String)))
      (onlineSpuIds [⟨0, true⟩, ⟨1, true⟩]) 2 ∧
    ((PartitionScheduler.init [⟨0, true⟩, ⟨1, true⟩] ([] : List (PartitionMetadata String))).generateReplicaMapForTopic
      ⟨2, 1⟩ none).2.map Prod.fst = (List.range 2).map UInt32.ofNat :=
  have hcount : (1 : UInt32) ≤ UInt32.ofNat [(⟨0, true⟩ : SpuMetadata), ⟨1, true⟩].length := by decide
  have hcard : (1 : UInt32).toNat ≤ (onlineSpuIds [⟨0, true⟩, ⟨1, true⟩]).toFinset.card := by decide
  have hsat : PartitionScheduler.Unsaturated (groupBySpu ([] : List (PartitionMetadata String)))
      (onlineSpuIds [⟨0, true⟩, ⟨1, true⟩]) 2 := by decide
  ⟨hcount, hcard, hsat, (PartitionScheduler.replica_assignment_sound ⟨2, 1⟩ none
    [⟨0, true⟩, ⟨1, true⟩] ([] : List (PartitionMetadata String))).2 hcount hcard hsat⟩

/-- One online SPU and a topic of 65536 partitions of one replica: the SPU leads the first 65535,
its count reaches `u16::MAX`, the scan finds no SPU for the last partition, and the topic gets the
empty map, though there are as many SPUs, all online, as the factor. -/
theorem manyPartitions_unscheduled :
    ((PartitionScheduler.init [⟨0, true⟩] ([] : List (PartitionMetadata String))).generateReplicaMapForTopic
      ⟨65536, 1⟩ none).2 = [] := by
  open PartitionScheduler ReplicaSchedulingGroups in
  have hsorted : (onlineSpuIds [(⟨0, true⟩ : SpuMetadata)]).insertionSort (· ≤ ·) = [0] := by decide
  -- the first 65535 partitions are scheduled, each led by SPU 0
  obtain ⟨g, m, h⟩ : ∃ g m, (List.range 65535).foldlM (schedulePartition [0] ⟨65536, 1⟩ none)
      (groupBySpu ([] : List (PartitionMetadata String)), []) = .ok (g, m) :=
    schedule_ok (by decide) (by decide) (by decide)
  have hs := Scheduled.run (by decide) h
  have hlead : (g.leaders 0).toNat = 65535 := by
    rw [hs.leaders 0, List.countP_eq_length.mpr, hs.length]
    · rfl
    intro e he
    rcases hs.entries e he with hk | ⟨-, hlen, -, hon⟩
    · cases hk
    obtain ⟨a, ha⟩ := List.length_eq_one_iff.mp hlen
    have : a = 0 := List.mem_singleton.mp (hon a (by rw [ha]; exact List.mem_singleton_self a))
    simp [fresh, keptReplicas, ha, this]
  -- the last one finds SPU 0 at 65535
  have hnone : g.findSuitableSpu [0] [] .leader = none := by
    refine findSuitableSpu_eq_none fun x hx _ => ?_
    rw [List.mem_singleton.mp hx, candidateWeight_leader]
    exact UInt16.toNat_inj.mp hlead
  have herr : (List.range (65535 + 1)).foldlM (schedulePartition [0] ⟨65536, 1⟩ none)
      (groupBySpu ([] : List (PartitionMetadata String)), []) = .error g := by
    rw [foldlM_range_succ, h]
    simp only [bind, Except.bind, schedulePartition, keptReplicas, Option.bind_none]
    simp [bind, Except.bind, reserveReplicas, reserveReplica, hnone]
  rw [generateReplicaMapForTopic_eq, if_neg (by decide)]
  apply generatePartitionsWithoutRack_of_error
  rw [show (onlineSpuIds (init [⟨0, true⟩] ([] : List (PartitionMetadata String))).spus).insertionSort
    (· ≤ ·) = [0] from hsorted]
  exact herr

/-! ### Leaders round the online SPUs -/

namespace PartitionScheduler

open ReplicaSchedulingGroups

/-- The leader counts of the SPUs `spus` after partitions placed round them from equal counts `c`:
`q` more each, and one more again for the first `r`. -/
def RoundRobin (spus : List SpuId) (c : Nat) (groups : ReplicaSchedulingGroups) (q r : Nat) :
    Prop :=
  ∀ k (hk : k < spus.length), (groups.leaders spus[k]).toNat = c + q + if k < r then 1 else 0

variable {spus : List SpuId} {c q r : Nat} {groups groups' : ReplicaSchedulingGroups}
  {param : TopicReplicaParam} {m : ReplicaMap}

theorem suitableWeight_leader (x : SpuId) :
    groups.suitableWeight [] .leader x =
      if groups.leaders x < 65535 then some (groups.leaders x) else none := by
  simp [suitableWeight, candidateWeight_leader]

/-- **The leader scan, round robin**, finds the first SPU that has led one partition fewer. -/
theorem RoundRobin.findSuitableSpu (h : RoundRobin spus c groups q r) (hr : r < spus.length)
    (hw : c + q < 65535) : groups.findSuitableSpu spus [] .leader = some spus[r] := by
  -- every SPU's weight is its leader count; the first `r` have one more than the rest
  have hval : ∀ k (hk : k < spus.length) t, groups.suitableWeight [] .leader spus[k] = some t →
      t.toNat = c + q + if k < r then 1 else 0 := by
    intro k hk t ht
    rw [suitableWeight_leader] at ht
    by_cases hl : groups.leaders spus[k] < 65535
    · rw [if_pos hl, Option.some.injEq] at ht
      rw [← ht, h k hk]
    · rw [if_neg hl] at ht
      cases ht
  have hfirst : (groups.leaders spus[r]).toNat = c + q := by simp [h r hr]
  have hmin : FirstMin.IsFirstMin (groups.suitableWeight [] .leader) spus spus[r]
      (groups.leaders spus[r]) := by
    refine ⟨⟨spus.take r, spus.drop (r + 1), ?_, ?_⟩, ?_, ?_⟩
    · rw [List.getElem_cons_drop, List.take_append_drop]
    · intro b hb t ht
      obtain ⟨j, hj, rfl⟩ := List.mem_take_iff_getElem.mp hb
      have hjr : j < r := lt_of_lt_of_le hj (Nat.min_le_left _ _)
      have := hval j (by omega) t ht
      rw [if_pos hjr] at this
      rw [UInt16.lt_iff_toNat_lt, hfirst, this]
      omega
    · rw [suitableWeight_leader, if_pos (by rw [UInt16.lt_iff_toNat_lt, hfirst]; simp; omega)]
    · intro b hb t ht
      obtain ⟨k, hk, rfl⟩ := List.mem_iff_getElem.mp hb
      rw [UInt16.le_iff_toNat_le, hfirst, hval k hk t ht]
      omega
  rw [findSuitableSpu_eq_firstMin, FirstMin.firstMin_eq_of_isFirstMin hmin]
  rfl

/-- **One more partition**, round robin: the first SPU that has led one fewer leads it, and
every SPU has led `q` more, or `q + 1` more for the first `r + 1`. -/
theorem RoundRobin.step (h : RoundRobin spus c groups q r) (hnd : spus.Nodup)
    (hr : r < spus.length) (hw : c + q < 65535) {k : Nat} {reserved : List SpuId}
    (hres : reserveReplicas spus groups (k + 1) = .ok (groups', reserved)) :
    ∃ q' r', spus.length * q' + r' = spus.length * q + r + 1 ∧ r' < spus.length ∧
      RoundRobin spus c groups' q' r' := by
  have hhead : reserved.head? = some spus[r] := by
    rw [head_reserveReplicas hres, h.findSuitableSpu hr hw]
  have hlead : ∀ j (hj : j < spus.length),
      (groups'.leaders spus[j]).toNat = c + q + (if j < r then 1 else 0) + if j = r then 1 else 0 := by
    intro j hj
    have hsame : some spus[r] = some spus[j] ↔ j = r := by
      rw [Option.some.injEq, List.Nodup.getElem_inj_iff hnd, eq_comm]
    rw [(reserveReplicas_spec hres).1.leaders, h j hj, hhead]
    simp only [hsame]
  by_cases hlast : r + 1 < spus.length
  · -- the round goes on
    refine ⟨q, r + 1, by omega, hlast, fun j hj => ?_⟩
    rw [hlead j hj]
    by_cases hjr : j < r <;> by_cases hje : j = r <;> simp [hjr, hje] <;> omega
  · -- the round is complete: every SPU has led once more
    refine ⟨q + 1, 0, by rw [Nat.mul_succ]; omega, by omega, fun j hj => ?_⟩
    rw [hlead j hj]
    by_cases hjr : j < r <;> by_cases hje : j = r <;> simp [hjr, hje] <;> omega

/-- **Leaders round robin**: from equal leader counts, after `i` new partitions with no previous
map, the SPUs, in order, have led `i / n` more each and one more again for the first `i % n`. -/
theorem RoundRobin.run (hnd : spus.Nodup) (hn : 0 < spus.length)
    (hk : 1 ≤ param.replicationFactor.toNat) (h0 : RoundRobin spus c groups 0 0) {i : Nat}
    (hw : c + i ≤ 65535)
    (h : (List.range i).foldlM (schedulePartition spus param none) (groups, []) =
      .ok (groups', m)) :
    ∃ q r, i = spus.length * q + r ∧ r < spus.length ∧ RoundRobin spus c groups' q r := by
  induction i generalizing groups' m with
  | zero =>
    simp only [List.range_zero, List.foldlM_nil, pure, Except.pure, Except.ok.injEq,
      Prod.mk.injEq] at h
    obtain ⟨rfl, rfl⟩ := h
    exact ⟨0, 0, by simp, hn, h0⟩
  | succ i ih =>
    rw [foldlM_range_succ, bind_eq_ok_iff] at h
    obtain ⟨⟨g₁, m₁⟩, h₁, h₂⟩ := h
    obtain ⟨q, r, hi, hr, hrr⟩ := ih (by omega) h₁
    -- with no previous map every partition is placed anew
    obtain ⟨k, hk'⟩ : ∃ k, param.replicationFactor.toNat = k + 1 := ⟨_, (Nat.succ_pred_eq_of_pos hk).symm⟩
    simp only [PartitionScheduler.schedulePartition, keptReplicas, Option.bind_none,
      bind_eq_ok_iff, hk'] at h₂
    obtain ⟨⟨g₂, r₂⟩, hres, hpure⟩ := h₂
    simp only [pure, Except.pure, Except.ok.injEq, Prod.mk.injEq] at hpure
    obtain ⟨rfl, -⟩ := hpure
    have hq : q ≤ i := le_trans (Nat.le_mul_of_pos_left q hn) (by omega)
    obtain ⟨q', r', he, hr', hrr'⟩ := hrr.step hnd hr (by omega) hres
    exact ⟨q', r', by omega, hr', hrr'⟩

/-- With no previous map, the leader counts grow by the partitions each SPU leads in the map. -/
theorem Scheduled.leaders_of_none {groups₀ : ReplicaSchedulingGroups}
    (h : Scheduled spus param none groups₀ groups i m) (x : SpuId) :
    (groups.leaders x).toNat = (groups₀.leaders x).toNat + ReplicaMap.leaderCount m x :=
  h.leaders x

/-- The two counts a round leaves: `⌊p / n⌋`, and `⌈p / n⌉` when the last round is partial. -/
theorem div_ceil_of_eq {n q r p : Nat} (hn : 0 < n) (hr : r < n) (hp : p = n * q + r) :
    p / n = q ∧ (p + n - 1) / n = q + if r = 0 then 0 else 1 := by
  refine ⟨by rw [hp, Nat.mul_add_div hn, Nat.div_eq_of_lt hr, Nat.add_zero], ?_⟩
  have hceil : p + n - 1 = n * q + (r + n - 1) := by omega
  rw [hceil, Nat.mul_add_div hn]
  by_cases hr0 : r = 0
  · rw [if_pos hr0, Nat.div_eq_of_lt (by omega)]
  · rw [if_neg hr0, Nat.div_eq_of_lt_le (k := 1) (by omega) (by omega)]

/-- **Leader balance**: from equal leader counts, with every partition placed anew on at least
one replica and on no more replicas than there are distinct online SPUs, and no count able to
reach 65535, each online SPU leads `⌊p / n⌋` or `⌈p / n⌉` of the new partitions, and an SPU
leads no more than any SPU of a smaller id. -/
theorem leader_balance {K : Type} (spus : List SpuMetadata)
    (partitions : List (PartitionMetadata K)) (param : TopicReplicaParam) (c : UInt16)
    (hnodup : (onlineSpuIds spus).Nodup) (hn : 0 < (onlineSpuIds spus).length)
    (hc : ∀ x ∈ onlineSpuIds spus, (groupBySpu partitions).leaders x = c)
    (hk : 1 ≤ param.replicationFactor.toNat)
    (hkn : param.replicationFactor.toNat ≤ (onlineSpuIds spus).length)
    (hsat : Unsaturated (groupBySpu partitions) (onlineSpuIds spus) param.partitions.toNat) :
    (∀ x ∈ onlineSpuIds spus,
      ReplicaMap.leaderCount ((init spus partitions).generatePartitionsWithoutRack param none).2 x =
          param.partitions.toNat / (onlineSpuIds spus).length ∨
        ReplicaMap.leaderCount ((init spus partitions).generatePartitionsWithoutRack param none).2 x =
          (param.partitions.toNat + (onlineSpuIds spus).length - 1) / (onlineSpuIds spus).length) ∧
    ∀ x ∈ onlineSpuIds spus, ∀ y ∈ onlineSpuIds spus, x < y →
      ReplicaMap.leaderCount ((init spus partitions).generatePartitionsWithoutRack param none).2 y ≤
        ReplicaMap.leaderCount ((init spus partitions).generatePartitionsWithoutRack param none).2 x := by
  -- the loops scan the online SPUs sorted: distinct, in id order
  have hperm := List.perm_insertionSort (· ≤ ·) (onlineSpuIds spus)
  have hsnd : ((onlineSpuIds spus).insertionSort (· ≤ ·)).Nodup := hperm.nodup_iff.mpr hnodup
  have hslen := hperm.length_eq
  have hsorted := List.pairwise_insertionSort (· ≤ ·) (onlineSpuIds spus)
  have hp := (UInt32.toNat_lt param.partitions).le
  -- every partition is scheduled
  obtain ⟨g, m, h⟩ : ∃ g m, (List.range param.partitions.toNat).foldlM
      (schedulePartition ((onlineSpuIds spus).insertionSort (· ≤ ·)) param none)
      (groupBySpu partitions, []) = .ok (g, m) :=
    schedule_ok hp (by rw [List.toFinset_card_of_nodup hsnd]; omega)
      fun x hx => hsat x (hperm.mem_iff.mp hx)
  have hsch := Scheduled.run hp h
  -- and the leaders go round the sorted SPUs
  have h0 : RoundRobin ((onlineSpuIds spus).insertionSort (· ≤ ·)) c.toNat (groupBySpu partitions)
      0 0 := fun k hk => by simp [hc _ (hperm.mem_iff.mp (List.getElem_mem hk))]
  have hw : c.toNat + param.partitions.toNat ≤ 65535 := by
    obtain ⟨x, hx⟩ := List.exists_mem_of_length_pos hn
    have := (hsat x hx).1
    rwa [hc x hx] at this
  obtain ⟨q, r, hpq, hr, hrr⟩ := RoundRobin.run hsnd (by omega) hk h0 hw h
  obtain ⟨hfloor, hceil⟩ := div_ceil_of_eq (by omega) hr hpq
  rw [generatePartitionsWithoutRack_of_ok (init spus partitions) param none h]
  -- the SPU `k`-th in id order leads `q` partitions, and one more if `k < r`
  have hcount : ∀ k (hk : k < ((onlineSpuIds spus).insertionSort (· ≤ ·)).length),
      ReplicaMap.leaderCount m ((onlineSpuIds spus).insertionSort (· ≤ ·))[k] =
        q + if k < r then 1 else 0 := by
    intro k hk
    have h1 := hsch.leaders_of_none ((onlineSpuIds spus).insertionSort (· ≤ ·))[k]
    rw [hrr k hk, hc _ (hperm.mem_iff.mp (List.getElem_mem hk))] at h1
    omega
  refine ⟨fun x hx => ?_, fun x hx y hy hxy => ?_⟩
  · obtain ⟨k, hk, rfl⟩ := List.mem_iff_getElem.mp (hperm.mem_iff.mpr hx)
    rw [hcount k hk, ← hslen, hfloor, hceil]
    by_cases hkr : k < r
    · exact .inr (by rw [if_pos hkr, if_neg (by omega)])
    · exact .inl (by rw [if_neg hkr, Nat.add_zero])
  · obtain ⟨i, hi, rfl⟩ := List.mem_iff_getElem.mp (hperm.mem_iff.mpr hx)
    obtain ⟨j, hj, rfl⟩ := List.mem_iff_getElem.mp (hperm.mem_iff.mpr hy)
    -- a smaller id stands earlier in the sorted list
    have hij : i < j := by
      by_contra hji
      rcases Nat.lt_or_eq_of_le (Nat.not_lt.mp hji) with hlt | heq
      · exact Int32.not_le.mpr hxy (List.pairwise_iff_getElem.mp hsorted j i hj hi hlt)
      · subst heq
        exact Std.lt_irrefl hxy
    rw [hcount i hi, hcount j hj]
    by_cases hjr : j < r
    · rw [if_pos hjr, if_pos (by omega)]
    · rw [if_neg hjr]
      omega


end PartitionScheduler

/-- Two online SPUs from no partitions and a topic of three partitions of one replica. -/
theorem threePartitions_balanced :
    (onlineSpuIds [⟨0, true⟩, ⟨1, true⟩]).Nodup ∧ 0 < (onlineSpuIds [⟨0, true⟩, ⟨1, true⟩]).length ∧
    (∀ x ∈ onlineSpuIds [⟨0, true⟩, ⟨1, true⟩],
      (groupBySpu ([] : List (PartitionMetadata String))).leaders x = 0) ∧
    1 ≤ (1 : UInt32).toNat ∧ (1 : UInt32).toNat ≤ (onlineSpuIds [⟨0, true⟩, ⟨1, true⟩]).length ∧
    PartitionScheduler.Unsaturated (groupBySpu ([] : List (PartitionMetadata String)))
      (onlineSpuIds [⟨0, true⟩, ⟨1, true⟩]) (3 : UInt32).toNat ∧
    (∀ x ∈ onlineSpuIds [⟨0, true⟩, ⟨1, true⟩],
      ReplicaMap.leaderCount ((PartitionScheduler.init [⟨0, true⟩, ⟨1, true⟩]
          ([] : List (PartitionMetadata String))).generatePartitionsWithoutRack ⟨3, 1⟩ none).2 x =
          (3 : UInt32).toNat / (onlineSpuIds [⟨0, true⟩, ⟨1, true⟩]).length ∨
        ReplicaMap.leaderCount ((PartitionScheduler.init [⟨0, true⟩, ⟨1, true⟩]
          ([] : List (PartitionMetadata String))).generatePartitionsWithoutRack ⟨3, 1⟩ none).2 x =
          ((3 : UInt32).toNat + (onlineSpuIds [⟨0, true⟩, ⟨1, true⟩]).length - 1) /
            (onlineSpuIds [⟨0, true⟩, ⟨1, true⟩]).length) ∧
    ∀ x ∈ onlineSpuIds [⟨0, true⟩, ⟨1, true⟩], ∀ y ∈ onlineSpuIds [⟨0, true⟩, ⟨1, true⟩], x < y →
      ReplicaMap.leaderCount ((PartitionScheduler.init [⟨0, true⟩, ⟨1, true⟩]
          ([] : List (PartitionMetadata String))).generatePartitionsWithoutRack ⟨3, 1⟩ none).2 y ≤
        ReplicaMap.leaderCount ((PartitionScheduler.init [⟨0, true⟩, ⟨1, true⟩]
          ([] : List (PartitionMetadata String))).generatePartitionsWithoutRack ⟨3, 1⟩ none).2 x :=
  have hnodup : (onlineSpuIds [⟨0, true⟩, ⟨1, true⟩]).Nodup := by decide
  have hn : 0 < (onlineSpuIds [⟨0, true⟩, ⟨1, true⟩]).length := by decide
  have hc : ∀ x ∈ onlineSpuIds [⟨0, true⟩, ⟨1, true⟩],
      (groupBySpu ([] : List (PartitionMetadata String))).leaders x = 0 := fun _ _ => rfl
  have hk : 1 ≤ (1 : UInt32).toNat := by decide
  have hkn : (1 : UInt32).toNat ≤ (onlineSpuIds [⟨0, true⟩, ⟨1, true⟩]).length := by decide
  have hsat : PartitionScheduler.Unsaturated (groupBySpu ([] : List (PartitionMetadata String)))
      (onlineSpuIds [⟨0, true⟩, ⟨1, true⟩]) (3 : UInt32).toNat := by decide
  ⟨hnodup, hn, hc, hk, hkn, hsat, PartitionScheduler.leader_balance [⟨0, true⟩, ⟨1, true⟩]
    ([] : List (PartitionMetadata String)) ⟨3, 1⟩ 0 hnodup hn hc hk hkn hsat⟩

/-- A replication factor of 0 places every partition on no SPU: the one online SPU leads none of
the partitions, not `⌊1 / 1⌋ = 1`. -/
theorem noReplicas_noLeader :
    ((PartitionScheduler.init [⟨0, true⟩] ([] : List (PartitionMetadata String))).generatePartitionsWithoutRack
      ⟨1, 0⟩ none).2 = [(0, [])] ∧
    ReplicaMap.leaderCount ((PartitionScheduler.init [⟨0, true⟩]
      ([] : List (PartitionMetadata String))).generatePartitionsWithoutRack ⟨1, 0⟩ none).2 0 = 0 := by
  decide

/-- `generate_replica_simple`: two online SPUs, two partitions of one replica. -/
example : ((PartitionScheduler.init [⟨0, true⟩, ⟨1, true⟩] ([] : List (PartitionMetadata String))).generatePartitionsWithoutRack
    ⟨2, 1⟩ none).2 = [(0, [0]), (1, [1])] := by
  decide

/-- `generate_replica_map_for_topic_2x_replicas`: four SPUs, three partitions already placed. -/
example : ((PartitionScheduler.init [⟨0, true⟩, ⟨1, true⟩, ⟨2, true⟩, ⟨3, true⟩]
    ([⟨("t1", 0), ⟨0, [0, 1, 2]⟩, ⟨.offline, .default, 0, [], 0⟩⟩,
      ⟨("t1", 1), ⟨1, [1, 2]⟩, ⟨.offline, .default, 0, [], 0⟩⟩,
      ⟨("t2", 0), ⟨0, [0, 3]⟩, ⟨.offline, .default, 0, [], 0⟩⟩] :
      List (PartitionMetadata (String × Nat)))).generatePartitionsWithoutRack ⟨5, 3⟩ none).2 =
    [(0, [2, 0, 1]), (1, [3, 0, 1]), (2, [1, 3, 0]), (3, [2, 3, 0]), (4, [3, 2, 1])] := by
  decide

end Fluvio.Sc
