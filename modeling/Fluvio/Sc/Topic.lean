import Fluvio.Sc.Scheduler
import Fluvio.Lib.Sorted

/-!
A topic on the SC: its spec, its status, and the validation of an assigned partition map
(`fluvio-controlplane-metadata/src/topic/{spec,status}.rs`, `fluvio-sc/src/stores/topic/store.rs`,
`fluvio-sc/src/services/public_api/topic/update/add_partition.rs`).

A topic's replicas are computed from a partition count and a replication factor, or assigned by a
partition map, which `validate` checks: ids from 0 without gaps, and replica lists of one positive
length, without repeats and of non-negative SPU ids. Repeats are found as the source finds them,
by sorting a copy and counting the neighbours that differ (`Fluvio.Lib.Sorted`).

* `PartitionMaps.validate_ok_iff` — `validate` accepts exactly the well-formed maps.
* `PartitionMaps.ordered_toReplicaMap` — the replica map of a partition map, built by
  `BTreeMap::insert`, has its keys in order, so each partition in it once.
-/

namespace Fluvio.Sc

/-! ### The topic spec -/

/-- `PartitionMap`, without its mirror config: a partition's id and replicas. -/
structure PartitionMap where
  id : PartitionId
  replicas : List SpuId
  deriving DecidableEq, Repr

/-- `PartitionMaps`. -/
abbrev PartitionMaps := List PartitionMap

namespace PartitionMaps

/-- The uniqueness count of `validate`: the replicas sorted, and one more than the neighbours that
differ. -/
def uniqueCount (replicas : List SpuId) : Nat :=
  1 + (Sorted.neighbours (replicas.insertionSort (· ≤ ·))).countP fun pair => pair.1 != pair.2

/-- The checks of `validate`'s loop on a partition's id and replica count: the first partition
(`id == 0`) sets the count, the others must keep it. The count for the next partition, or the
error. -/
def checkIdAndLength (id : UInt32) (replicaLen : Nat) (partition : PartitionMap) : Except String Nat :=
  if id = 0 then
    if partition.id ≠ id then .error "assigned partitions must start with id 0"
    else if partition.replicas.length = 0 then .error "assigned replicas must have at least one spu id"
    else .ok partition.replicas.length
  else if partition.id ≠ id then .error "assigned partition ids must be in sequence and without gaps"
  else if partition.replicas.length ≠ replicaLen then
    .error s!"all assigned replicas must have the same number of spu ids: {replicaLen}"
  else .ok replicaLen

/-- The checks of `validate`'s loop on every partition's replicas: no SPU twice, by the count over
the sorted copy, and no negative SPU id. -/
def checkReplicas (id : UInt32) (replicas : List SpuId) : Except String Unit :=
  if replicas.length ≠ uniqueCount replicas then
    .error s!"duplicate spu ids found in assigned partition with id: {id}"
  else match replicas.find? (· < 0) with
    | some spuId => .error s!"invalid spu id: {spuId} in assigned partition with id: {id}"
    | none => .ok ()

/-- One partition of `validate`'s loop, at the id it must have and with the count the first
partition set. -/
def checkPartition (id : UInt32) (replicaLen : Nat) (partition : PartitionMap) : Except String Nat := do
  let replicaLen ← checkIdAndLength id replicaLen partition
  checkReplicas id partition.replicas
  pure replicaLen

/-- The loop of `validate`; the id goes up by one, wrapping as a `u32`. -/
def validateLoop : UInt32 → Nat → PartitionMaps → Except String Unit
  | _, _, [] => pure ()
  | id, replicaLen, partition :: rest => do
    let replicaLen ← checkPartition id replicaLen partition
    validateLoop (id + 1) replicaLen rest

/-- `PartitionMaps::validate`. -/
def validate (maps : PartitionMaps) : Except String Unit :=
  if maps.isEmpty then throw "no assigned partitions found" else validateLoop 0 0 maps

/-- `PartitionMaps::unique_spus_in_partition_map`: the SPUs of the map in order of first use. -/
def uniqueSpus (maps : PartitionMaps) : List SpuId :=
  maps.foldl (fun spuIds partition =>
    partition.replicas.foldl (fun spuIds spu => if spu ∈ spuIds then spuIds else spuIds ++ [spu]) spuIds)
    []

/-- `impl From<&PartitionMaps> for ReplicaPartitionMap`: each partition inserted by its id. -/
def toReplicaMap (maps : PartitionMaps) : ReplicaMap :=
  maps.foldl (fun replicaMap partition => ReplicaMap.insert partition.id partition.replicas replicaMap) []

end PartitionMaps

/-! ### What `validate` accepts -/

/-- A partition's replicas as `validate` wants them: `n` SPUs, none twice, none negative. -/
def PartitionMap.Good (n : Nat) (partition : PartitionMap) : Prop :=
  partition.replicas.length = n ∧ partition.replicas.Nodup ∧ ∀ spu ∈ partition.replicas, 0 ≤ spu

/-- A partition map as `validate` wants it: not empty, with ids `0, 1, …` in order, and all replica
lists of one positive length, without repeats and of non-negative SPU ids. -/
structure PartitionMaps.WellFormed (maps : PartitionMaps) : Prop where
  ne_nil : maps ≠ []
  ids : maps.map (·.id) = (List.range maps.length).map UInt32.ofNat
  replicas : ∃ n, 0 < n ∧ ∀ partition ∈ maps, partition.Good n

namespace PartitionMaps

theorem length_eq_uniqueCount_iff {replicas : List SpuId} (hne : replicas ≠ []) :
    replicas.length = uniqueCount replicas ↔ replicas.Nodup := by
  rw [uniqueCount, Nat.add_comm, eq_comm]
  exact Sorted.countP_insertionSort_iff_nodup (fun _ _ => Int32.le_antisymm) hne

theorem find?_neg_eq_none_iff {replicas : List SpuId} :
    replicas.find? (· < 0) = none ↔ ∀ spu ∈ replicas, 0 ≤ spu := by
  simp [Int32.not_lt]

theorem checkReplicas_eq_ok {id : UInt32} {replicas : List SpuId} (hne : replicas ≠ []) :
    checkReplicas id replicas = .ok () ↔ replicas.Nodup ∧ ∀ spu ∈ replicas, 0 ≤ spu := by
  rw [← length_eq_uniqueCount_iff hne, ← find?_neg_eq_none_iff, checkReplicas]
  split_ifs with hdup
  · simp [hdup]
  · cases replicas.find? (· < 0) <;> simp_all

theorem checkIdAndLength_zero {n n' : Nat} {partition : PartitionMap} :
    checkIdAndLength 0 n partition = .ok n' ↔
      partition.id = 0 ∧ 0 < partition.replicas.length ∧ n' = partition.replicas.length := by
  rw [checkIdAndLength, if_pos rfl]
  split_ifs with hid hlen
  · simp [hid]
  · simp [hlen]
  · have hpos : 0 < partition.replicas.length := Nat.pos_of_ne_zero hlen
    simp [not_not.mp hid, hpos, eq_comm]

theorem checkIdAndLength_of_ne_zero {id : UInt32} {n n' : Nat} {partition : PartitionMap} (hid : id ≠ 0) :
    checkIdAndLength id n partition = .ok n' ↔
      partition.id = id ∧ partition.replicas.length = n ∧ n' = n := by
  rw [checkIdAndLength, if_neg hid]
  split_ifs <;> simp_all [eq_comm]

theorem checkPartition_eq_ok {id : UInt32} {n n' : Nat} {partition : PartitionMap} :
    checkPartition id n partition = .ok n' ↔
      checkIdAndLength id n partition = .ok n' ∧ checkReplicas id partition.replicas = .ok () := by
  rw [checkPartition, bind_eq_ok_iff]
  constructor
  · rintro ⟨m, hm, hrest⟩
    rw [bind_eq_ok_iff] at hrest
    obtain ⟨u, hu, hpure⟩ := hrest
    cases hpure
    exact ⟨hm, hu⟩
  · rintro ⟨hm, hu⟩
    exact ⟨n', hm, bind_eq_ok_iff.mpr ⟨(), hu, rfl⟩⟩

theorem checkPartition_zero {n n' : Nat} {partition : PartitionMap} :
    checkPartition 0 n partition = .ok n' ↔ partition.id = 0 ∧ 0 < n' ∧ partition.Good n' := by
  rw [checkPartition_eq_ok, checkIdAndLength_zero]
  constructor
  · rintro ⟨⟨hid, hpos, rfl⟩, hreplicas⟩
    have hne : partition.replicas ≠ [] := List.ne_nil_of_length_pos hpos
    exact ⟨hid, hpos, rfl, (checkReplicas_eq_ok hne).mp hreplicas⟩
  · rintro ⟨hid, hpos, hlen, hgood⟩
    have hne : partition.replicas ≠ [] := List.ne_nil_of_length_pos (hlen ▸ hpos)
    exact ⟨⟨hid, hlen ▸ hpos, hlen.symm⟩, (checkReplicas_eq_ok hne).mpr hgood⟩

theorem checkPartition_of_ne_zero {id : UInt32} {n n' : Nat} {partition : PartitionMap} (hid : id ≠ 0)
    (hn : 0 < n) :
    checkPartition id n partition = .ok n' ↔ partition.id = id ∧ n' = n ∧ partition.Good n := by
  rw [checkPartition_eq_ok, checkIdAndLength_of_ne_zero hid]
  constructor
  · rintro ⟨⟨hpid, hlen, rfl⟩, hreplicas⟩
    have hne : partition.replicas ≠ [] := List.ne_nil_of_length_pos (hlen ▸ hn)
    exact ⟨hpid, rfl, hlen, (checkReplicas_eq_ok hne).mp hreplicas⟩
  · rintro ⟨hpid, rfl, hlen, hgood⟩
    have hne : partition.replicas ≠ [] := List.ne_nil_of_length_pos (hlen ▸ hn)
    exact ⟨⟨hpid, hlen, rfl⟩, (checkReplicas_eq_ok hne).mpr hgood⟩

theorem ofNat_ne_zero {i : Nat} (hi : 0 < i) (hlt : i < 2 ^ 32) : UInt32.ofNat i ≠ 0 := by
  intro h
  have := congrArg UInt32.toNat h
  simp at this
  omega

theorem ofNat_add_one (i : Nat) : UInt32.ofNat i + 1 = UInt32.ofNat (i + 1) := by
  rw [UInt32.ofNat_add]
  rfl

/-- The loop after the first partition, from id `i` on and with the count `n` the first set. -/
theorem validateLoop_eq_ok {n : Nat} (hn : 0 < n) :
    ∀ {i : Nat} (rest : PartitionMaps), 0 < i → i + rest.length ≤ 2 ^ 32 →
      (validateLoop (UInt32.ofNat i) n rest = .ok () ↔
        rest.map (·.id) = (List.range' i rest.length).map UInt32.ofNat ∧
          ∀ partition ∈ rest, partition.Good n)
  | _, [], _, _ => by simp [validateLoop, pure, Except.pure]
  | i, partition :: rest, hi, hbound => by
    rw [List.length_cons] at hbound
    have hid : UInt32.ofNat i ≠ 0 := ofNat_ne_zero hi (by omega)
    have ih := validateLoop_eq_ok hn rest (i := i + 1) (by omega) (by omega)
    rw [validateLoop, bind_eq_ok_iff, ofNat_add_one, List.length_cons, List.range'_succ,
      List.map_cons, List.map_cons, List.cons.injEq, List.forall_mem_cons]
    constructor
    · rintro ⟨m, hcheck, hloop⟩
      obtain ⟨hpid, rfl, hgood⟩ := (checkPartition_of_ne_zero hid hn).mp hcheck
      obtain ⟨hids, hrest⟩ := ih.mp hloop
      exact ⟨⟨hpid, hids⟩, hgood, hrest⟩
    · rintro ⟨⟨hpid, hids⟩, hgood, hrest⟩
      exact ⟨n, (checkPartition_of_ne_zero hid hn).mpr ⟨hpid, rfl, hgood⟩, ih.mpr ⟨hids, hrest⟩⟩

theorem map_id_cons {first : PartitionMap} {rest : PartitionMaps} :
    (first :: rest).map (·.id) = (List.range (first :: rest).length).map UInt32.ofNat ↔
      first.id = 0 ∧ rest.map (·.id) = (List.range' 1 rest.length).map UInt32.ofNat := by
  rw [List.length_cons, List.range_eq_range', List.range'_succ, List.map_cons, List.map_cons,
    List.cons.injEq]
  rfl

/-- **`validate` accepts exactly the well-formed maps**, of fewer than `2^32 + 1` partitions (past
that the `u32` id wraps to 0). -/
theorem validate_ok_iff {maps : PartitionMaps} (hlen : maps.length ≤ 2 ^ 32) :
    maps.validate = .ok () ↔ maps.WellFormed := by
  cases maps with
  | nil =>
    have hnot : ¬ WellFormed [] := fun h => h.ne_nil rfl
    simp [validate, hnot, throw, throwThe, MonadExceptOf.throw]
  | cons first rest =>
    rw [List.length_cons] at hlen
    have hloop {n : Nat} (hn : 0 < n) := validateLoop_eq_ok hn rest (i := 1) one_pos (by omega)
    have hone : (0 : UInt32) + 1 = UInt32.ofNat 1 := rfl
    rw [validate, if_neg (by simp), validateLoop, bind_eq_ok_iff, hone]
    constructor
    · rintro ⟨n, hcheck, hrest⟩
      obtain ⟨hfid, hpos, hgood⟩ := checkPartition_zero.mp hcheck
      obtain ⟨hids, hgoods⟩ := (hloop hpos).mp hrest
      exact ⟨List.cons_ne_nil _ _, map_id_cons.mpr ⟨hfid, hids⟩, n, hpos,
        List.forall_mem_cons.mpr ⟨hgood, hgoods⟩⟩
    · rintro ⟨-, hids, n, hpos, hgoods⟩
      obtain ⟨hfid, hids⟩ := map_id_cons.mp hids
      obtain ⟨hgood, hgoods⟩ := List.forall_mem_cons.mp hgoods
      exact ⟨n, checkPartition_zero.mpr ⟨hfid, hpos, hgood⟩, (hloop hpos).mpr ⟨hids, hgoods⟩⟩

/-- Two partitions with ids 0 and 1, each on two SPUs, meet the bound. -/
theorem validate_ok_iff_twoPartitions :
    [(⟨0, [1, 2]⟩ : PartitionMap), ⟨1, [2, 3]⟩].length ≤ 2 ^ 32 ∧
      (validate [⟨0, [1, 2]⟩, ⟨1, [2, 3]⟩] = .ok () ↔ WellFormed [⟨0, [1, 2]⟩, ⟨1, [2, 3]⟩]) :=
  ⟨by decide, validate_ok_iff (by decide)⟩

end PartitionMaps


/-- `ReplicaSpec`, without mirror topics. -/
inductive ReplicaSpec where
  | computed (param : TopicReplicaParam)
  | assigned (maps : PartitionMaps)
  deriving DecidableEq, Repr

/-- `ReplicaSpec::partitions`. -/
def ReplicaSpec.partitions : ReplicaSpec → UInt32
  | .computed param => param.partitions
  | .assigned maps => UInt32.ofNat maps.length

/-- `ReplicaSpec::valid_partition`. -/
def ReplicaSpec.validPartition (partitions : UInt32) : Except String Unit :=
  if partitions = 0 then throw "partition must be greater than 0" else pure ()

/-- `ReplicaSpec::valid_replication_factor`. -/
def ReplicaSpec.validReplicationFactor (replication : UInt32) : Except String Unit :=
  if replication = 0 then throw "replication factor must be greater than 0" else pure ()

/-- `TopicSpec`, with the fields the modelled functions read: its replicas, and whether it is a
system topic. -/
structure TopicSpec where
  replicas : ReplicaSpec
  system : Bool
  deriving DecidableEq, Repr

/-- The errors `handle_add_partition` answers an existing topic with. -/
inductive AddPartitionError where
  | systemSpecUpdatingAttempt
  | topicInvalidReplicaType
  deriving DecidableEq, Repr

/-- `handle_add_partition` on an existing topic: a computed topic gets `count` more partitions, the
sum wrapping as a `u32`. -/
def TopicSpec.addPartition (spec : TopicSpec) (count : UInt32) : Except AddPartitionError TopicSpec :=
  if spec.system then .error .systemSpecUpdatingAttempt
  else match spec.replicas with
    | .computed param => .ok { spec with replicas := .computed { param with partitions := param.partitions + count } }
    | _ => .error .topicInvalidReplicaType

/-! ### The topic status -/

/-- `TopicResolution`. -/
inductive TopicResolution where
  | init
  | pending
  | insufficientResources
  | invalidConfig
  | provisioned
  | deleting
  deriving DecidableEq, Repr

/-- `PENDING_REASON`. -/
def pendingReason : String := "waiting for live spus"

/-- `TopicStatus`, without the mirror map. -/
structure TopicStatus where
  resolution : TopicResolution
  replicaMap : ReplicaMap
  reason : String
  deriving DecidableEq, Repr

/-- `TopicStatus::default`. -/
def TopicStatus.default : TopicStatus := ⟨.init, [], ""⟩

/-- A topic as the SC's store holds it: its name, spec and status, and whether its deletion was
asked for. -/
structure TopicMetadata where
  key : String
  spec : TopicSpec
  status : TopicStatus
  beingDeleted : Bool
  deriving DecidableEq, Repr

/-- `ReplicaKey`: a partition of a topic. -/
structure ReplicaKey where
  topic : String
  partition : PartitionId
  deriving DecidableEq, Repr

/-- `PartitionSpec::from_replicas`: the first replica leads, or SPU 0 when there is none. -/
def PartitionSpec.fromReplicas (replicas : List SpuId) : PartitionSpec :=
  ⟨match replicas with
    | [] => 0
    | leader :: _ => leader, replicas⟩

/-- `PartitionStatus::default`: offline, with no replica and size `SIZE_NOT_SUPPORTED`. -/
def PartitionStatus.default : PartitionStatus := ⟨.offline, .default, 0, [], -2⟩

/-- The partitions of the store that belong to the topic (`childrens`). -/
def TopicMetadata.childrens (topic : TopicMetadata) (store : List (PartitionMetadata ReplicaKey)) :
    List (PartitionMetadata ReplicaKey) :=
  store.filter (·.key.topic = topic.key)

/-- `TopicMd::create_new_partitions`: a partition for each entry of the topic's replica map whose
key the store does not hold. -/
def TopicMetadata.createNewPartitions (topic : TopicMetadata) (store : List (PartitionMetadata ReplicaKey)) :
    List (PartitionMetadata ReplicaKey) :=
  topic.status.replicaMap.filterMap fun entry =>
    let replicaKey : ReplicaKey := ⟨topic.key, entry.1⟩
    if store.any (·.key = replicaKey) then none
    else some ⟨replicaKey, PartitionSpec.fromReplicas entry.2, PartitionStatus.default⟩

/-! ### The replica map -/

namespace ReplicaMap

variable {m m' : ReplicaMap} {k : PartitionId} {v : List SpuId}

/-- The keys of the map go up, as a `BTreeMap`'s entries do. -/
def Ordered (m : ReplicaMap) : Prop := (m.map Prod.fst).Pairwise (· < ·)

theorem Ordered.nodup (h : m.Ordered) : (m.map Prod.fst).Nodup := by
  refine List.Pairwise.imp ?_ h
  rintro a b hlt rfl
  exact UInt32.lt_irrefl _ hlt

theorem get_of_mem (hnd : (m.map Prod.fst).Nodup) (he : (k, v) ∈ m) : m.get k = some v := by
  induction m with
  | nil => cases he
  | cons e m ih =>
    obtain ⟨k', v'⟩ := e
    rw [List.map_cons, List.nodup_cons] at hnd
    rw [get, List.lookup_cons]
    rcases List.mem_cons.mp he with h | h
    · cases h
      simp
    · have hne : k ≠ k' := by
        rintro rfl
        exact hnd.1 (List.mem_map.mpr ⟨(k, v), h, rfl⟩)
      rw [beq_eq_false_iff_ne.mpr hne]
      exact ih hnd.2 h

theorem mem_of_get (h : m.get k = some v) : (k, v) ∈ m := by
  obtain ⟨l₁, l₂, rfl, -⟩ := List.lookup_eq_some_iff.mp h
  simp

theorem mem_keys_insert {x : PartitionId} :
    ∀ {m : ReplicaMap}, x ∈ (insert k v m).map Prod.fst → x = k ∨ x ∈ m.map Prod.fst
  | [], h => by simpa [insert] using h
  | (k', v') :: m, h => by
    rw [insert] at h
    split_ifs at h
    · simpa using h
    · simp only [List.map_cons, List.mem_cons] at h ⊢
      tauto
    · simp only [List.map_cons, List.mem_cons] at h ⊢
      rcases h with h | h
      · exact .inr (.inl h)
      · rcases mem_keys_insert h with h | h
        · exact .inl h
        · exact .inr (.inr h)

/-- `BTreeMap::insert` keeps the keys in order. -/
theorem Ordered.insert (h : m.Ordered) : (insert k v m).Ordered := by
  induction m with
  | nil => simp [ReplicaMap.insert, Ordered]
  | cons e m ih =>
    obtain ⟨k', v'⟩ := e
    simp only [Ordered, List.map_cons, List.pairwise_cons] at h
    obtain ⟨hk', hm⟩ := h
    rw [ReplicaMap.insert]
    split_ifs with hlt heq
    · simp only [Ordered, List.map_cons, List.pairwise_cons, List.mem_cons]
      refine ⟨?_, hk', hm⟩
      rintro x (rfl | hx)
      · exact hlt
      · exact UInt32.lt_trans hlt (hk' x hx)
    · subst heq
      simpa [Ordered] using And.intro hk' hm
    · have hgt : k' < k := (UInt32.lt_or_lt_of_ne (Ne.symm heq)).resolve_right hlt
      simp only [Ordered, List.map_cons, List.pairwise_cons]
      refine ⟨fun x hx => ?_, ih hm⟩
      rcases mem_keys_insert hx with rfl | hx
      · exact hgt
      · exact hk' x hx

/-- Keys `0, 1, …, n - 1` are in order while they do not wrap. -/
theorem ordered_of_keys {n : Nat} (hn : n ≤ 2 ^ 32)
    (hkeys : m.map Prod.fst = (List.range n).map UInt32.ofNat) : m.Ordered := by
  rw [Ordered, hkeys, List.pairwise_map]
  refine List.pairwise_lt_range.imp_of_mem fun ha hb hab => ?_
  rw [List.mem_range] at ha hb
  rw [UInt32.lt_iff_toNat_lt, UInt32.toNat_ofNat', UInt32.toNat_ofNat', Nat.mod_eq_of_lt (by omega),
    Nat.mod_eq_of_lt (by omega)]
  exact hab

end ReplicaMap

theorem PartitionMaps.ordered_toReplicaMap (maps : PartitionMaps) :
    (PartitionMaps.toReplicaMap maps).Ordered := by
  suffices h : ∀ (m : ReplicaMap), m.Ordered →
      (maps.foldl (fun replicaMap partition => ReplicaMap.insert partition.id partition.replicas replicaMap) m).Ordered from
    h [] List.Pairwise.nil
  induction maps with
  | nil => exact fun _ hm => hm
  | cons partition maps ih => exact fun m hm => ih _ hm.insert

/-- `handle_add_partition` accepts only a computed topic, and adds to its partition count. -/
theorem TopicSpec.addPartition_ok {spec spec' : TopicSpec} {count : UInt32}
    (h : spec.addPartition count = .ok spec') : ∃ param, spec.replicas = .computed param ∧
      spec' = { spec with replicas := .computed { param with partitions := param.partitions + count } } := by
  unfold TopicSpec.addPartition at h
  split_ifs at h
  split at h
  · rename_i param hparam
    cases h
    exact ⟨param, hparam, rfl⟩
  · cases h

namespace TopicMetadata

variable (t : TopicMetadata) {store : List (PartitionMetadata ReplicaKey)}

@[simp] theorem childrens_status (status : TopicStatus) :
    ({ t with status := status } : TopicMetadata).childrens store = t.childrens store := rfl

@[simp] theorem childrens_spec (spec : TopicSpec) :
    ({ t with spec := spec } : TopicMetadata).childrens store = t.childrens store := rfl

@[simp] theorem childrens_beingDeleted (beingDeleted : Bool) :
    ({ t with beingDeleted := beingDeleted } : TopicMetadata).childrens store = t.childrens store := rfl

/-- Each partition the topic creates is for an entry of its replica map, with that entry's
replicas. -/
theorem mem_createNewPartitions {p : PartitionMetadata ReplicaKey} (hp : p ∈ t.createNewPartitions store) :
    ∃ e ∈ t.status.replicaMap, p.key = ⟨t.key, e.1⟩ ∧ p.spec.replicas = e.2 := by
  obtain ⟨e, he, hsome⟩ := List.mem_filterMap.mp hp
  dsimp only at hsome
  split_ifs at hsome
  cases hsome
  exact ⟨e, he, rfl, rfl⟩

/-- A change that keeps every key acts on the topic's partitions alone. -/
theorem childrens_map (store : List (PartitionMetadata ReplicaKey))
    (g : PartitionMetadata ReplicaKey → PartitionMetadata ReplicaKey)
    (hg : ∀ p, (g p).key = p.key) : t.childrens (store.map g) = (t.childrens store).map g := by
  rw [childrens, childrens, List.filter_map]
  congr 2
  funext p
  simp [hg]

/-- Replacing the other topics' partitions leaves the topic's own. -/
theorem childrens_otherPartitions (store partitions : List (PartitionMetadata ReplicaKey)) :
    t.childrens (t.childrens store ++ partitions.filter (·.key.topic ≠ t.key)) = t.childrens store := by
  have hnone : (partitions.filter fun p => decide (p.key.topic = t.key) && decide (p.key.topic ≠ t.key)) = [] := by
    rw [List.filter_eq_nil_iff]
    intro p _
    by_cases hp : p.key.topic = t.key <;> simp [hp]
  simp only [childrens, List.filter_append, List.filter_filter, Bool.and_self, hnone, List.append_nil]

end TopicMetadata

end Fluvio.Sc
