import Fluvio.Sc.Topic
import Fluvio.Lib.Trace

/-!
The topic controller of the SC (`fluvio-sc/src/controllers/topics/{reducer,policy}.rs`), run
against everything else that changes the SC's stores.

On each reconciliation the reducer moves a topic's resolution on: a new or invalid topic is
validated; a pending one gets a replica map from the scheduler, or from its partition map once
every SPU the map names is registered; a provisioned one gets a partition for each entry of its map
that has none, and goes back to pending when partitions were added to it. A topic being deleted is
set `Deleting`, and its partitions are deleted. Between reconciliations SPUs come and go, partitions
are added, leaders are elected and other topics' partitions change (`TopicSystem.next`).

* `TopicSystem.run_inv` — along every run from a new topic, its partitions are distinct and each
  has the replicas its topic's replica map gives it, so adding partitions or rescheduling never
  moves an existing partition; the map of a computed topic has as many distinct SPUs as the factor
  in each entry; and a topic past validation has a valid spec.
* `TopicSystem.delete_reconcile` — a topic asked to be deleted is `Deleting` after the next
  reconciliation, with none of its partitions left, and stays so whatever happens next.
* `TopicSystem.reconcile_provisioned` — a reconciliation gives a provisioned topic a partition for
  every entry of its replica map.
-/

namespace Fluvio.Sc

/-! ### The next state -/

/-- `TopicNextState`: the resolution and reason to set, the replica map to set when not empty, and
the partitions to create. -/
structure TopicNextState where
  resolution : TopicResolution
  reason : String
  replicaMap : ReplicaMap
  partitions : List (PartitionMetadata ReplicaKey)

/-- `From<(TopicResolution, String)> for TopicNextState`. -/
def TopicNextState.ofResolution (resolution : TopicResolution) (reason : String) : TopicNextState :=
  ⟨resolution, reason, [], []⟩

/-- `validate_assigned_topic_parameters`. -/
def validateAssignedTopicParameters (maps : PartitionMaps) : TopicNextState :=
  match maps.validate with
  | .error err => .ofResolution .invalidConfig err
  | .ok () => .ofResolution .pending pendingReason

/-- `validate_computed_topic_parameters`. -/
def validateComputedTopicParameters (param : TopicReplicaParam) : TopicNextState :=
  match ReplicaSpec.validPartition param.partitions with
  | .error err => .ofResolution .invalidConfig err
  | .ok () =>
    match ReplicaSpec.validReplicationFactor param.replicationFactor with
    | .error err => .ofResolution .invalidConfig err
    | .ok () => .ofResolution .pending pendingReason

/-- `update_replica_map_for_assigned_topic`: the map of the partition maps once every SPU they
name is in the SPU store (`spu_ids`, sorted). -/
def updateReplicaMapForAssignedTopic (maps : PartitionMaps) (spus : List SpuMetadata) : TopicNextState :=
  let spusId := (spus.map (·.id)).insertionSort (· ≤ ·)
  match (PartitionMaps.uniqueSpus maps).find? (· ∉ spusId) with
  | some spu => .ofResolution .invalidConfig s!"invalid spu id: {spu}"
  | none =>
    let replicaMap := PartitionMaps.toReplicaMap maps
    if replicaMap.isEmpty then .ofResolution .invalidConfig "invalid replica map"
    else ⟨.provisioned, "", replicaMap, []⟩

/-- The `_` arms of `compute_next_state`: the same resolution (`same_next_state`), and the missing
partitions when provisioned. -/
def TopicMetadata.provisionedNextState (topic : TopicMetadata) (store : List (PartitionMetadata ReplicaKey)) :
    TopicNextState :=
  let next := TopicNextState.ofResolution topic.status.resolution ""
  if next.resolution = .provisioned then { next with partitions := topic.createNewPartitions store }
  else next

/-- `TopicNextState::compute_next_state`, the scheduler made from the SPU and partition stores. -/
def TopicMetadata.computeNextState (topic : TopicMetadata) (spus : List SpuMetadata)
    (store : List (PartitionMetadata ReplicaKey)) : TopicNextState :=
  match topic.spec.replicas with
  | .computed param =>
    match topic.status.resolution with
    | .init | .invalidConfig => validateComputedTopicParameters param
    | .pending | .insufficientResources =>
      let replicaMap := ((PartitionScheduler.init spus store).generateReplicaMapForTopic param
        (some topic.status.replicaMap)).2
      if replicaMap ≠ [] then ⟨.provisioned, "", replicaMap, []⟩
      else .ofResolution .insufficientResources ""
    | _ => topic.provisionedNextState store
  | .assigned maps =>
    match topic.status.resolution with
    | .init | .invalidConfig => validateAssignedTopicParameters maps
    | .pending | .insufficientResources =>
      let next := updateReplicaMapForAssignedTopic maps spus
      if next.resolution = .provisioned then { next with partitions := topic.createNewPartitions store }
      else next
    | _ => topic.provisionedNextState store

/-- `TopicNextState::apply_as_next_state` on the status: the resolution and reason, and the replica
map when it is not empty. -/
def TopicNextState.applyAsNextState (next : TopicNextState) (status : TopicStatus) : TopicStatus :=
  { status with
    resolution := next.resolution
    reason := next.reason
    replicaMap := if next.replicaMap.isEmpty then status.replicaMap else next.replicaMap }

/-! ### The reducer -/

/-- The partition writes of the topic reducer. -/
inductive PartitionAction where
  | apply (partition : PartitionMetadata ReplicaKey)
  | delete (key : ReplicaKey)
  deriving DecidableEq, Repr

/-- `TopicActions` for one topic: its status updates, and the partition writes. -/
structure TopicActions where
  topics : List TopicStatus
  partitions : List PartitionAction
  deriving DecidableEq, Repr

/-- `TopicReducer::update_actions_next_state`. A topic being deleted is set `Deleting` once, with a
delete for each of its partitions; a provisioned topic whose spec asks for more partitions than its
map has goes back to pending; any other gets its next state, and a status update when its
resolution or reason changes. -/
def TopicMetadata.updateActionsNextState (topic : TopicMetadata) (spus : List SpuMetadata)
    (store : List (PartitionMetadata ReplicaKey)) : TopicActions :=
  if topic.beingDeleted then
    if topic.status.resolution ≠ .deleting then
      ⟨[{ topic.status with resolution := .deleting }], (topic.childrens store).map fun p => .delete p.key⟩
    else ⟨[], []⟩
  else if topic.status.resolution = .provisioned ∧
      UInt32.ofNat topic.status.replicaMap.length < topic.spec.replicas.partitions then
    ⟨[{ topic.status with resolution := .pending }], []⟩
  else
    let next := topic.computeNextState spus store
    let status := next.applyAsNextState topic.status
    ⟨if status.resolution ≠ topic.status.resolution ∨ status.reason ≠ topic.status.reason then [status]
      else [], next.partitions.map .apply⟩

/-! ### The topic in the SC -/

/-- A write to the partition store: an apply replaces the partition of its key or adds it; a delete
removes the partition of its key. -/
def PartitionAction.run (store : List (PartitionMetadata ReplicaKey)) :
    PartitionAction → List (PartitionMetadata ReplicaKey)
  | .apply partition =>
    if store.any (·.key = partition.key) then store.map fun p => if p.key = partition.key then partition else p
    else store ++ [partition]
  | .delete key => store.filter (·.key ≠ key)

/-- One topic in the SC: the topic, the SPU store, and the partition store. -/
structure TopicSystem where
  topic : TopicMetadata
  spus : List SpuMetadata
  partitions : List (PartitionMetadata ReplicaKey)

/-- The SC after the topic controller sends the actions: the topic's last status update, and the
partition writes in order. -/
def TopicSystem.handleActions (s : TopicSystem) (actions : TopicActions) : TopicSystem :=
  { s with
    topic := { s.topic with status := actions.topics.getLast?.getD s.topic.status }
    partitions := actions.partitions.foldl PartitionAction.run s.partitions }

/-- What can happen next: the topic controller reconciles the topic; SPUs register, leave, come up or
go down; partitions are added to the topic; its deletion is asked for; the partition controller
elects a leader; the partitions of other topics change. -/
inductive TopicEvent where
  | reconcile
  | spus (spus : List SpuMetadata)
  | addPartition (count : UInt32)
  | delete
  | elect (key : ReplicaKey) (leader : SpuId)
  | otherPartitions (partitions : List (PartitionMetadata ReplicaKey))

/-- One step of the SC for the topic. A refused `add_partition` changes nothing. -/
def TopicSystem.next (s : TopicSystem) : TopicEvent → Option TopicSystem
  | .reconcile => some (s.handleActions (s.topic.updateActionsNextState s.spus s.partitions))
  | .spus spus => some { s with spus := spus }
  | .addPartition count =>
    match s.topic.spec.addPartition count with
    | .ok spec => some { s with topic := { s.topic with spec := spec } }
    | .error _ => some s
  | .delete => some { s with topic := { s.topic with beingDeleted := true } }
  | .elect key leader =>
    some { s with partitions := s.partitions.map fun p =>
      if p.key = key then { p with spec := { p.spec with leader := leader } } else p }
  | .otherPartitions partitions =>
    some { s with partitions := s.topic.childrens s.partitions ++ partitions.filter (·.key.topic ≠ s.topic.key) }

/-- The partitions an event asks to add. -/
def TopicEvent.added : TopicEvent → Nat
  | .addPartition count => count.toNat
  | _ => 0

namespace PartitionScheduler

variable {onlineSpus : List SpuId} {param : TopicReplicaParam} {actual : Option ReplicaMap}
  {groups groups' : ReplicaSchedulingGroups} {m m' : ReplicaMap} {k : PartitionId} {v : List SpuId}

theorem keptReplicas_of_get (hget : m.get k = some v)
    (hlen : v.length = param.replicationFactor.toNat) : keptReplicas (some m) param k = some v := by
  simp [keptReplicas, hget, hlen]

theorem get_of_keptReplicas (h : keptReplicas (some m) param k = some v) : m.get k = some v := by
  unfold keptReplicas at h
  split at h
  · rename_i w hw
    split_ifs at h
    cases h
    simpa using hw
  · cases h

/-- A whole schedule has the keys `0, 1, …` up to the partition count, so in order. -/
theorem Scheduled.ordered (h : Scheduled onlineSpus param actual groups groups' param.partitions.toNat m') :
    m'.Ordered :=
  ReplicaMap.ordered_of_keys (UInt32.toNat_lt _).le h.keys

/-- **Rescheduling keeps every entry** of the previous map, when that map has the keys `0, 1, …`
up to at most the partition count and as many replicas as the factor in each entry. -/
theorem Scheduled.get_of_get
    (h : Scheduled onlineSpus param (some m) groups groups' param.partitions.toNat m')
    (hkeys : m.map Prod.fst = (List.range m.length).map UInt32.ofNat)
    (hlen : m.length ≤ param.partitions.toNat)
    (hentries : ∀ e ∈ m, e.2.length = param.replicationFactor.toNat)
    (hget : m.get k = some v) : m'.get k = some v := by
  have hmem := ReplicaMap.mem_of_get hget
  -- the key is one of `0, …, m.length - 1`, so the schedule has it too
  have hk : k ∈ m'.map Prod.fst := by
    have hk : k ∈ m.map Prod.fst := List.mem_map.mpr ⟨(k, v), hmem, rfl⟩
    rw [hkeys, List.mem_map] at hk
    obtain ⟨j, hj, rfl⟩ := hk
    rw [List.mem_range] at hj
    rw [h.keys]
    exact List.mem_map.mpr ⟨j, List.mem_range.mpr (by omega), rfl⟩
  obtain ⟨e, he, rfl⟩ := List.mem_map.mp hk
  have hkept := keptReplicas_of_get hget (hentries _ hmem)
  rcases h.entries e he with hkept' | ⟨hnone, -⟩
  · rw [hkept] at hkept'
    rw [Option.some.inj hkept']
    exact ReplicaMap.get_of_mem h.ordered.nodup he
  · rw [hkept] at hnone
    cases hnone

/-- Every entry of a schedule has as many distinct SPUs as the factor, when the kept ones did. -/
theorem Scheduled.entries_nodup {i : Nat} (h : Scheduled onlineSpus param (some m) groups groups' i m')
    (hentries : ∀ e ∈ m, e.2.length = param.replicationFactor.toNat ∧ e.2.Nodup) :
    ∀ e ∈ m', e.2.length = param.replicationFactor.toNat ∧ e.2.Nodup := by
  intro e he
  rcases h.entries e he with hkept | ⟨-, hlen, hnd, -⟩
  · exact hentries _ (ReplicaMap.mem_of_get (get_of_keptReplicas hkept))
  · exact ⟨hlen, hnd⟩

/-- The map the SC gets for a topic: empty, or a whole schedule. -/
theorem generateReplicaMapForTopic_spec {K : Type} (spus : List SpuMetadata)
    (partitions : List (PartitionMetadata K)) :
    ((init spus partitions).generateReplicaMapForTopic param actual).2 = [] ∨
      ∃ onlineSpus groups groups', Scheduled onlineSpus param actual groups groups'
        param.partitions.toNat ((init spus partitions).generateReplicaMapForTopic param actual).2 := by
  rw [generateReplicaMapForTopic_eq]
  split_ifs
  · exact .inl rfl
  · exact (generatePartitionsWithoutRack_spec _ param actual).imp_right fun h => ⟨_, _, _, h⟩

end PartitionScheduler

/-! ### The partition store -/

namespace PartitionAction

variable {store : List (PartitionMetadata ReplicaKey)} {p : PartitionMetadata ReplicaKey}

/-- A write keeps the keys of a store distinct: an apply replaces the partition of its key, or adds
one of a key the store lacks. -/
theorem keys_nodup_run (a : PartitionAction) (h : (store.map (·.key)).Nodup) :
    ((a.run store).map (·.key)).Nodup := by
  cases a with
  | apply q =>
    rw [run]
    split_ifs with hany
    · have hkeys : (store.map fun p => if p.key = q.key then q else p).map (·.key) =
          store.map (·.key) := by
        rw [List.map_map]
        congr 1
        funext p
        by_cases hp : p.key = q.key <;> simp [hp]
      rwa [hkeys]
    · have hnot : q.key ∉ store.map (·.key) := by simpa using hany
      rw [List.map_append, List.map_singleton, List.nodup_append]
      simp only [List.nodup_cons, List.not_mem_nil, not_false_eq_true, List.nodup_nil, and_self,
        List.mem_singleton, true_and, h]
      rintro _ hx _ rfl rfl
      exact hnot hx
  | delete k => exact (List.filter_sublist.map _).nodup h

/-- What a store holds after a write was there before, or is the partition applied. -/
theorem mem_run {a : PartitionAction} (hp : p ∈ a.run store) : p ∈ store ∨ a = .apply p := by
  cases a with
  | apply q =>
    rw [run] at hp
    split_ifs at hp
    · obtain ⟨p', hp', rfl⟩ := List.mem_map.mp hp
      by_cases hk : p'.key = q.key
      · exact .inr (by rw [if_pos hk])
      · exact .inl (by rwa [if_neg hk])
    · rcases List.mem_append.mp hp with h | h
      · exact .inl h
      · exact .inr (by rw [List.mem_singleton.mp h])
  | delete k => exact .inl (List.mem_of_mem_filter hp)

theorem keys_nodup_foldl_run (actions : List PartitionAction) :
    ∀ {store : List (PartitionMetadata ReplicaKey)}, (store.map (·.key)).Nodup →
      ((actions.foldl run store).map (·.key)).Nodup := by
  induction actions with
  | nil => exact fun h => h
  | cons a actions ih => exact fun h => ih (keys_nodup_run a h)

theorem mem_foldl_run (actions : List PartitionAction) :
    ∀ {store : List (PartitionMetadata ReplicaKey)}, p ∈ actions.foldl run store →
      p ∈ store ∨ .apply p ∈ actions := by
  induction actions with
  | nil => exact fun hp => .inl hp
  | cons a actions ih =>
    intro store hp
    rcases ih hp with hp | hp
    · rcases mem_run hp with hp | rfl
      · exact .inl hp
      · exact .inr List.mem_cons_self
    · exact .inr (List.mem_cons_of_mem a hp)

/-- Deleting keys one after the other leaves the partitions of the other keys. -/
theorem foldl_run_delete (keys : List ReplicaKey) :
    ∀ store : List (PartitionMetadata ReplicaKey),
      (keys.map delete).foldl run store = store.filter fun p => p.key ∉ keys := by
  induction keys with
  | nil => simp
  | cons k keys ih =>
    intro store
    rw [List.map_cons, List.foldl_cons, ih, run, List.filter_filter]
    congr 1
    funext p
    simp only [List.mem_cons, not_or, Bool.decide_and]
    exact Bool.and_comm _ _

/-- A partition of key `k` with replicas `v` stays through an apply that puts only such replicas
at `k`. -/
theorem exists_key_run_apply {k : ReplicaKey} {v : List SpuId} {q : PartitionMetadata ReplicaKey}
    (hq : q.key = k → q.spec.replicas = v) (h : ∃ p ∈ store, p.key = k ∧ p.spec.replicas = v) :
    ∃ p ∈ (apply q).run store, p.key = k ∧ p.spec.replicas = v := by
  obtain ⟨p, hp, hk, hv⟩ := h
  rw [run]
  split_ifs
  · by_cases hpq : p.key = q.key
    · exact ⟨q, List.mem_map.mpr ⟨p, hp, if_pos hpq⟩, hpq ▸ hk, hq (hpq ▸ hk)⟩
    · exact ⟨p, List.mem_map.mpr ⟨p, hp, if_neg hpq⟩, hk, hv⟩
  · exact ⟨p, List.mem_append_left _ hp, hk, hv⟩

/-- The partition an apply writes is in the store after it. -/
theorem mem_run_apply_self (q : PartitionMetadata ReplicaKey) : q ∈ (apply q).run store := by
  rw [run]
  split_ifs with hany
  · obtain ⟨p, hp, hpq⟩ := List.any_eq_true.mp hany
    exact List.mem_map.mpr ⟨p, hp, if_pos (of_decide_eq_true hpq)⟩
  · exact List.mem_append_right _ (List.mem_singleton_self q)

/-- After applying partitions that put only the replicas `v` at key `k`, the store has a partition
of key `k` with replicas `v`, when it had one or one was applied. -/
theorem exists_key_foldl_apply {k : ReplicaKey} {v : List SpuId} (ps : List (PartitionMetadata ReplicaKey))
    (hps : ∀ q ∈ ps, q.key = k → q.spec.replicas = v) :
    ∀ store : List (PartitionMetadata ReplicaKey),
      ((∃ p ∈ store, p.key = k ∧ p.spec.replicas = v) ∨ ∃ q ∈ ps, q.key = k) →
      ∃ p ∈ (ps.map apply).foldl run store, p.key = k ∧ p.spec.replicas = v := by
  induction ps with
  | nil =>
    rintro store (h | ⟨q, hq, -⟩)
    · exact h
    · cases hq
  | cons q ps ih =>
    intro store h
    have hq : q.key = k → q.spec.replicas = v := hps q List.mem_cons_self
    refine ih (fun q' hq' => hps q' (List.mem_cons_of_mem q hq')) _ ?_
    rcases h with h | ⟨q', hq', hk⟩
    · exact .inl (exists_key_run_apply hq h)
    · rcases List.mem_cons.mp hq' with rfl | hq'
      · exact .inl ⟨q', mem_run_apply_self q', hk, hq hk⟩
      · exact .inr ⟨q', hq', hk⟩

end PartitionAction

namespace TopicMetadata

variable (t : TopicMetadata) {store : List (PartitionMetadata ReplicaKey)}

/-- A write of the topic's own partitions, or a delete, acts on the topic's partitions alone. -/
theorem childrens_run (a : PartitionAction) (ha : ∀ p, a = .apply p → p.key.topic = t.key) :
    t.childrens (a.run store) = a.run (t.childrens store) := by
  cases a with
  | apply q =>
    have hq := ha q rfl
    have hany : (t.childrens store).any (·.key = q.key) = store.any (·.key = q.key) := by
      rw [childrens, List.any_filter]
      congr 1
      funext p
      by_cases hp : p.key = q.key <;> simp [hp, hq]
    simp only [PartitionAction.run, hany]
    split_ifs
    · rw [childrens, childrens, List.filter_map]
      congr 2
      funext p
      by_cases hp : p.key = q.key <;> simp [hp, hq]
    · rw [childrens, childrens, List.filter_append]
      simp [hq]
  | delete k =>
    simp only [PartitionAction.run, childrens, List.filter_filter]
    congr 1
    funext p
    exact Bool.and_comm _ _

theorem childrens_foldl_run (actions : List PartitionAction)
    (ha : ∀ p, .apply p ∈ actions → p.key.topic = t.key) :
    ∀ store, t.childrens (actions.foldl PartitionAction.run store) =
      actions.foldl PartitionAction.run (t.childrens store) := by
  induction actions with
  | nil => exact fun _ => rfl
  | cons a actions ih =>
    intro store
    rw [List.foldl_cons, List.foldl_cons, ih (fun p hp => ha p (List.mem_cons_of_mem a hp)),
      childrens_run t a (fun p hp => ha p (hp ▸ List.mem_cons_self))]

/-- Deleting every partition of the topic leaves it none. -/
theorem childrens_deleteAll :
    t.childrens (((t.childrens store).map fun p => PartitionAction.delete p.key).foldl
      PartitionAction.run store) = [] := by
  have hmap : ((t.childrens store).map fun p => PartitionAction.delete p.key) =
      ((t.childrens store).map (·.key)).map PartitionAction.delete := by
    rw [List.map_map]
    rfl
  rw [childrens_foldl_run t _ (by simp), hmap, PartitionAction.foldl_run_delete,
    List.filter_eq_nil_iff]
  intro p hp
  simpa using List.mem_map_of_mem hp

end TopicMetadata

/-! ### What the next state can be -/

/-- The resolutions a topic reaches only once its spec passed validation. -/
def TopicResolution.Validated : TopicResolution → Prop
  | .pending | .insufficientResources | .provisioned => True
  | _ => False

/-- A spec that passes validation. -/
def ReplicaSpec.Valid : ReplicaSpec → Prop
  | .computed param => param.partitions ≠ 0 ∧ param.replicationFactor ≠ 0
  | .assigned maps => maps.validate = .ok ()

/-- What the SC keeps true of a topic's replica map, for its spec: a computed topic's map has the
keys `0, 1, …`, no more of them than partitions, and as many distinct SPUs as the factor in each
entry; an assigned topic's map is empty or its partition map's. -/
def ReplicaSpec.MapOk : ReplicaSpec → ReplicaMap → Prop
  | .computed param, map => map.map Prod.fst = (List.range map.length).map UInt32.ofNat ∧
      map.length ≤ param.partitions.toNat ∧
      ∀ e ∈ map, e.2.length = param.replicationFactor.toNat ∧ e.2.Nodup
  | .assigned maps, map => map = [] ∨ map = maps.toReplicaMap

theorem TopicNextState.applyAsNextState_replicaMap_of_nil {next : TopicNextState} (status : TopicStatus)
    (h : next.replicaMap = []) : (next.applyAsNextState status).replicaMap = status.replicaMap := by
  simp [applyAsNextState, h]

theorem TopicNextState.applyAsNextState_replicaMap_of_ne_nil {next : TopicNextState} (status : TopicStatus)
    (h : next.replicaMap ≠ []) : (next.applyAsNextState status).replicaMap = next.replicaMap := by
  simp [applyAsNextState, h]

theorem validateComputedTopicParameters_cases (param : TopicReplicaParam) :
    (∃ reason, validateComputedTopicParameters param = .ofResolution .invalidConfig reason) ∨
      (ReplicaSpec.computed param).Valid ∧
        validateComputedTopicParameters param = .ofResolution .pending pendingReason := by
  unfold validateComputedTopicParameters ReplicaSpec.validPartition ReplicaSpec.validReplicationFactor
  by_cases hp : param.partitions = 0
  · simp [hp, throw, throwThe, MonadExceptOf.throw]
  · by_cases hr : param.replicationFactor = 0
    · simp [hp, hr, throw, throwThe, MonadExceptOf.throw, pure, Except.pure]
    · simp [hp, hr, ReplicaSpec.Valid, pure, Except.pure]

theorem validateAssignedTopicParameters_cases (maps : PartitionMaps) :
    (∃ reason, validateAssignedTopicParameters maps = .ofResolution .invalidConfig reason) ∨
      (ReplicaSpec.assigned maps).Valid ∧
        validateAssignedTopicParameters maps = .ofResolution .pending pendingReason := by
  unfold validateAssignedTopicParameters
  cases h : maps.validate with
  | error err => exact .inl ⟨err, rfl⟩
  | ok u => exact .inr ⟨h, rfl⟩

theorem updateReplicaMapForAssignedTopic_cases (maps : PartitionMaps) (spus : List SpuMetadata) :
    (∃ reason, updateReplicaMapForAssignedTopic maps spus = .ofResolution .invalidConfig reason) ∨
      updateReplicaMapForAssignedTopic maps spus = ⟨.provisioned, "", maps.toReplicaMap, []⟩ := by
  unfold updateReplicaMapForAssignedTopic
  dsimp only
  split
  · exact .inl ⟨_, rfl⟩
  · split_ifs
    · exact .inl ⟨_, rfl⟩
    · exact .inr rfl

theorem TopicMetadata.provisionedNextState_eq (t : TopicMetadata) (store : List (PartitionMetadata ReplicaKey)) :
    t.provisionedNextState store = ⟨t.status.resolution, "", [],
      if t.status.resolution = .provisioned then t.createNewPartitions store else []⟩ := by
  unfold provisionedNextState
  dsimp only [TopicNextState.ofResolution]
  split_ifs <;> rfl

namespace TopicMetadata

variable (t : TopicMetadata) (spus : List SpuMetadata) (store : List (PartitionMetadata ReplicaKey))

/-- **What the next state can be**: a resolution alone, pending only for a valid spec; for a
pending computed topic, provisioned with its schedule; for a pending assigned topic, provisioned
with its partition map and the partitions its old map lacks; or the resolution the topic has. -/
theorem computeNextState_cases :
    (∃ resolution reason, t.computeNextState spus store = .ofResolution resolution reason ∧
      resolution ≠ .provisioned ∧ resolution ≠ .deleting ∧
      (resolution.Validated → t.status.resolution.Validated ∨ t.spec.replicas.Valid)) ∨
    (t.status.resolution.Validated ∧ ∃ param, t.spec.replicas = .computed param ∧
      t.computeNextState spus store = ⟨.provisioned, "", ((PartitionScheduler.init spus store).generateReplicaMapForTopic
        param (some t.status.replicaMap)).2, []⟩) ∨
    (t.status.resolution.Validated ∧ ∃ maps, t.spec.replicas = .assigned maps ∧
      t.computeNextState spus store = ⟨.provisioned, "", maps.toReplicaMap, t.createNewPartitions store⟩) ∨
    t.computeNextState spus store = t.provisionedNextState store := by
  unfold computeNextState
  cases hspec : t.spec.replicas with
  | computed param =>
    -- a new or invalid topic is validated
    have hvalidate : ∃ resolution reason, validateComputedTopicParameters param =
        .ofResolution resolution reason ∧ resolution ≠ .provisioned ∧ resolution ≠ .deleting ∧
        (resolution.Validated → (ReplicaSpec.computed param).Valid) := by
      rcases validateComputedTopicParameters_cases param with ⟨reason, h⟩ | ⟨hvalid, h⟩
      · exact ⟨_, reason, h, by decide, by decide, fun hv => hv.elim⟩
      · exact ⟨_, _, h, by decide, by decide, fun _ => hvalid⟩
    obtain ⟨resolution, reason, hnext, hprov, hdel, hvalid⟩ := hvalidate
    cases hres : t.status.resolution
    case init | invalidConfig => exact .inl ⟨resolution, reason, hnext, hprov, hdel, fun hv => .inr (hvalid hv)⟩
    -- a pending one is scheduled
    case pending | insufficientResources =>
      dsimp only
      by_cases hm : ((PartitionScheduler.init spus store).generateReplicaMapForTopic param
          (some t.status.replicaMap)).2 = []
      · exact .inl ⟨.insufficientResources, "", by rw [if_neg (not_not.mpr hm)], by decide, by decide,
          fun _ => .inl trivial⟩
      · exact .inr (.inl ⟨trivial, param, rfl, by rw [if_pos hm]⟩)
    all_goals exact .inr (.inr (.inr rfl))
  | assigned maps =>
    have hvalidate : ∃ resolution reason, validateAssignedTopicParameters maps =
        .ofResolution resolution reason ∧ resolution ≠ .provisioned ∧ resolution ≠ .deleting ∧
        (resolution.Validated → (ReplicaSpec.assigned maps).Valid) := by
      rcases validateAssignedTopicParameters_cases maps with ⟨reason, h⟩ | ⟨hvalid, h⟩
      · exact ⟨_, reason, h, by decide, by decide, fun hv => hv.elim⟩
      · exact ⟨_, _, h, by decide, by decide, fun _ => hvalid⟩
    obtain ⟨resolution, reason, hnext, hprov, hdel, hvalid⟩ := hvalidate
    cases hres : t.status.resolution
    case init | invalidConfig => exact .inl ⟨resolution, reason, hnext, hprov, hdel, fun hv => .inr (hvalid hv)⟩
    -- a pending one gets its partition map once its SPUs are known
    case pending | insufficientResources =>
      dsimp only
      rcases updateReplicaMapForAssignedTopic_cases maps spus with ⟨reason, h⟩ | h
      · refine .inl ⟨.invalidConfig, reason, ?_, by decide, by decide, fun hv => hv.elim⟩
        rw [h, if_neg (by simp [TopicNextState.ofResolution])]
      · exact .inr (.inr (.inl ⟨trivial, maps, rfl, by rw [h, if_pos rfl]⟩))
    all_goals exact .inr (.inr (.inr rfl))

theorem computeNextState_partitions {p : PartitionMetadata ReplicaKey}
    (hp : p ∈ (t.computeNextState spus store).partitions) : p ∈ t.createNewPartitions store := by
  rcases t.computeNextState_cases spus store with ⟨_, _, h, -⟩ | ⟨-, _, -, h⟩ | ⟨-, _, -, h⟩ | h
  · simp [h, TopicNextState.ofResolution] at hp
  · simp [h] at hp
  · rwa [h] at hp
  · rw [h, provisionedNextState_eq] at hp
    split_ifs at hp
    · exact hp
    · cases hp

theorem computeNextState_validated (h : (t.computeNextState spus store).resolution.Validated) :
    t.status.resolution.Validated ∨ t.spec.replicas.Valid := by
  rcases t.computeNextState_cases spus store with ⟨_, _, hnext, -, -, hvalid⟩ | ⟨hres, -⟩ | ⟨hres, -⟩ | hnext
  · rw [hnext] at h
    exact hvalid h
  · exact .inl hres
  · exact .inl hres
  · rw [hnext, provisionedNextState_eq] at h
    exact .inl h

theorem computeNextState_ne_deleting (h : t.status.resolution ≠ .deleting) :
    (t.computeNextState spus store).resolution ≠ .deleting := by
  rcases t.computeNextState_cases spus store with ⟨_, _, hnext, -, hdel, -⟩ | ⟨-, _, -, hnext⟩ |
    ⟨-, _, -, hnext⟩ | hnext
  · rw [hnext]
    exact hdel
  · rw [hnext]
    exact (by decide : TopicResolution.provisioned ≠ .deleting)
  · rw [hnext]
    exact (by decide : TopicResolution.provisioned ≠ .deleting)
  · rw [hnext, provisionedNextState_eq]
    exact h

/-- **The map a topic gets** keeps every entry of its old one, in key order and fitting the spec. -/
theorem computeNextState_replicaMap (hord : t.status.replicaMap.Ordered)
    (hok : t.spec.replicas.MapOk t.status.replicaMap) :
    let map := ((t.computeNextState spus store).applyAsNextState t.status).replicaMap
    map.Ordered ∧ t.spec.replicas.MapOk map ∧
      ∀ k v, t.status.replicaMap.get k = some v → map.get k = some v := by
  intro map
  have hmap_def : map = ((t.computeNextState spus store).applyAsNextState t.status).replicaMap := rfl
  -- with no map of its own the next state keeps the old one
  have hold (h : (t.computeNextState spus store).replicaMap = []) :
      map.Ordered ∧ t.spec.replicas.MapOk map ∧
        ∀ k v, t.status.replicaMap.get k = some v → map.get k = some v := by
    rw [hmap_def, TopicNextState.applyAsNextState_replicaMap_of_nil _ h]
    exact ⟨hord, hok, fun _ _ h => h⟩
  rcases t.computeNextState_cases spus store with ⟨_, _, hnext, -⟩ | ⟨-, param, hspec, hnext⟩ |
    ⟨-, maps, hspec, hnext⟩ | hnext
  · exact hold (by rw [hnext]; rfl)
  · -- a computed topic's schedule
    by_cases hm : ((PartitionScheduler.init spus store).generateReplicaMapForTopic param
        (some t.status.replicaMap)).2 = []
    · exact hold (by rw [hnext]; exact hm)
    obtain ⟨onlineSpus, groups, groups', hs⟩ :=
      (PartitionScheduler.generateReplicaMapForTopic_spec spus store).resolve_left hm
    have hmap : map = ((PartitionScheduler.init spus store).generateReplicaMapForTopic param
        (some t.status.replicaMap)).2 := by
      rw [hmap_def, TopicNextState.applyAsNextState_replicaMap_of_ne_nil _ (by rw [hnext]; exact hm),
        hnext]
    rw [hspec] at hok ⊢
    obtain ⟨hkeys, hlen, hentries⟩ := hok
    rw [hmap]
    refine ⟨hs.ordered, ⟨by rw [hs.length]; exact hs.keys, by rw [hs.length], ?_⟩, ?_⟩
    · exact hs.entries_nodup hentries
    · exact fun k v hget => hs.get_of_get hkeys hlen (fun e he => (hentries e he).1) hget
  · -- an assigned topic's partition map
    by_cases hm : maps.toReplicaMap = []
    · exact hold (by rw [hnext]; exact hm)
    have hmap : map = maps.toReplicaMap := by
      rw [hmap_def, TopicNextState.applyAsNextState_replicaMap_of_ne_nil _ (by rw [hnext]; exact hm),
        hnext]
    rw [hspec] at hok ⊢
    rw [hmap]
    refine ⟨PartitionMaps.ordered_toReplicaMap maps, .inr rfl, fun k v hget => ?_⟩
    rcases hok with hnil | heq
    · rw [hnil] at hget
      cases hget
    · rwa [heq] at hget
  · exact hold (by rw [hnext, provisionedNextState_eq])

/-- A provisioned topic stays provisioned, with a partition for each entry of its map the store
lacks. -/
theorem computeNextState_of_provisioned (h : t.status.resolution = .provisioned) :
    t.computeNextState spus store = ⟨.provisioned, "", [], t.createNewPartitions store⟩ := by
  have hprov : t.provisionedNextState store = ⟨.provisioned, "", [], t.createNewPartitions store⟩ := by
    rw [provisionedNextState_eq, if_pos h, h]
  unfold computeNextState
  rw [h]
  cases t.spec.replicas <;> exact hprov

/-- **What one reconciliation does**: a topic asked to be deleted is set `Deleting` once, with a
delete for each of its partitions, and then left alone; a provisioned topic with too short a map
goes back to pending; any other gets its next state, with or without a status update, and its
new partitions. -/
theorem updateActionsNextState_cases :
    (t.beingDeleted = true ∧ t.status.resolution ≠ .deleting ∧
      t.updateActionsNextState spus store =
        ⟨[{ t.status with resolution := .deleting }], (t.childrens store).map fun p => .delete p.key⟩) ∨
    (t.beingDeleted = true ∧ t.status.resolution = .deleting ∧
      t.updateActionsNextState spus store = ⟨[], []⟩) ∨
    (t.beingDeleted = false ∧ t.status.resolution = .provisioned ∧
      UInt32.ofNat t.status.replicaMap.length < t.spec.replicas.partitions ∧
      t.updateActionsNextState spus store = ⟨[{ t.status with resolution := .pending }], []⟩) ∨
    (t.beingDeleted = false ∧
      ¬ (t.status.resolution = .provisioned ∧
        UInt32.ofNat t.status.replicaMap.length < t.spec.replicas.partitions) ∧
      ((t.updateActionsNextState spus store).topics = [] ∨
        (t.updateActionsNextState spus store).topics =
          [(t.computeNextState spus store).applyAsNextState t.status]) ∧
      (t.updateActionsNextState spus store).partitions =
        (t.computeNextState spus store).partitions.map .apply) := by
  unfold updateActionsNextState
  by_cases hdel : t.beingDeleted = true
  · by_cases hres : t.status.resolution = .deleting
    · exact .inr (.inl ⟨hdel, hres, by rw [if_pos hdel, if_neg (not_not.mpr hres)]⟩)
    · exact .inl ⟨hdel, hres, by rw [if_pos hdel, if_pos hres]⟩
  · have hdel' : t.beingDeleted = false := by simpa using hdel
    by_cases hpend : t.status.resolution = .provisioned ∧
        UInt32.ofNat t.status.replicaMap.length < t.spec.replicas.partitions
    · exact .inr (.inr (.inl ⟨hdel', hpend.1, hpend.2, by rw [if_neg hdel, if_pos hpend]⟩))
    · refine .inr (.inr (.inr ⟨hdel', hpend, ?_, ?_⟩)) <;> rw [if_neg hdel, if_neg hpend]
      dsimp only
      split_ifs
      · exact .inr rfl
      · exact .inl rfl

end TopicMetadata

/-! ### The topic's invariant -/

namespace TopicSystem

variable {s s' : TopicSystem}

theorem handleActions_nil (s : TopicSystem) (actions : List PartitionAction) :
    s.handleActions ⟨[], actions⟩ =
      { s with partitions := actions.foldl PartitionAction.run s.partitions } :=
  rfl

theorem handleActions_singleton (s : TopicSystem) (st : TopicStatus) (actions : List PartitionAction) :
    s.handleActions ⟨[st], actions⟩ =
      { s with topic := { s.topic with status := st }
               partitions := actions.foldl PartitionAction.run s.partitions } :=
  rfl

/-- What the SC keeps true of a topic along every run: its replica map is in key order and fits its
spec; its partitions are distinct, and each has the replicas its entry of the map gives it; a topic
past validation has a valid spec; and a deleting topic was asked to be deleted and has no partition
left. -/
structure Inv (s : TopicSystem) : Prop where
  ordered : s.topic.status.replicaMap.Ordered
  mapOk : s.topic.spec.replicas.MapOk s.topic.status.replicaMap
  nodup : ((s.topic.childrens s.partitions).map (·.key)).Nodup
  agree : ∀ p ∈ s.topic.childrens s.partitions,
    s.topic.status.replicaMap.get p.key.partition = some p.spec.replicas
  valid : s.topic.status.resolution.Validated → s.topic.spec.replicas.Valid
  deleting : s.topic.status.resolution = .deleting →
    s.topic.beingDeleted = true ∧ s.topic.childrens s.partitions = []

/-- Deletion: the topic set `Deleting`, none of its partitions left. -/
theorem Inv.deleteAll (h : s.Inv) (hdel : s.topic.beingDeleted = true) :
    (s.handleActions ⟨[{ s.topic.status with resolution := .deleting }],
      (s.topic.childrens s.partitions).map fun p => .delete p.key⟩).Inv := by
  have hnone : s.topic.childrens (((s.topic.childrens s.partitions).map fun p =>
      PartitionAction.delete p.key).foldl PartitionAction.run s.partitions) = [] :=
    s.topic.childrens_deleteAll
  rw [handleActions_singleton]
  exact {
    ordered := h.ordered
    mapOk := h.mapOk
    nodup := by simp [hnone]
    agree := by simp [hnone]
    valid := fun hv => hv.elim
    deleting := fun _ => ⟨hdel, by simpa using hnone⟩ }

/-- A provisioned topic sent back to pending. -/
theorem Inv.pending (h : s.Inv) (hprov : s.topic.status.resolution = .provisioned) :
    (s.handleActions ⟨[{ s.topic.status with resolution := .pending }], []⟩).Inv := by
  rw [handleActions_singleton]
  exact {
    ordered := h.ordered
    mapOk := h.mapOk
    nodup := by simpa using h.nodup
    agree := by simpa using h.agree
    valid := fun _ => h.valid (by rw [hprov]; trivial)
    deleting := fun hv => nomatch hv }

/-- The partitions after the next state's writes: the old ones, some replaced, and the new ones;
distinct, and each with the replicas of its entry in any map that keeps every entry of the old
one. -/
theorem Inv.childrens_computeNext (h : s.Inv) :
    let actions := (s.topic.computeNextState s.spus s.partitions).partitions.map PartitionAction.apply
    ((s.topic.childrens (actions.foldl PartitionAction.run s.partitions)).map (·.key)).Nodup ∧
    ∀ map : ReplicaMap, (∀ k v, s.topic.status.replicaMap.get k = some v → map.get k = some v) →
      ∀ p ∈ s.topic.childrens (actions.foldl PartitionAction.run s.partitions),
        map.get p.key.partition = some p.spec.replicas := by
  intro actions
  -- every partition written is a new one of the topic, for an entry of its map
  have hnew : ∀ p, PartitionAction.apply p ∈ actions → p ∈ s.topic.createNewPartitions s.partitions := by
    intro p hp
    obtain ⟨q, hq, hqp⟩ := List.mem_map.mp hp
    cases hqp
    exact s.topic.computeNextState_partitions s.spus s.partitions hq
  have hchildren := s.topic.childrens_foldl_run actions (fun p hp => by
    obtain ⟨e, -, hkey, -⟩ := s.topic.mem_createNewPartitions (hnew p hp)
    rw [hkey]) s.partitions
  rw [hchildren]
  refine ⟨PartitionAction.keys_nodup_foldl_run actions h.nodup, fun map hmap p hp => ?_⟩
  rcases PartitionAction.mem_foldl_run actions hp with hold | hp
  · exact hmap _ _ (h.agree p hold)
  · obtain ⟨e, he, hkey, hreplicas⟩ := s.topic.mem_createNewPartitions (hnew p hp)
    rw [hkey, hreplicas]
    exact hmap _ _ (ReplicaMap.get_of_mem h.ordered.nodup he)

/-- The topic's next state, with or without a status update, and its new partitions. -/
theorem Inv.computeNext (h : s.Inv) (hdel : s.topic.beingDeleted = false) {topics : List TopicStatus}
    (htopics : topics = [] ∨
      topics = [(s.topic.computeNextState s.spus s.partitions).applyAsNextState s.topic.status]) :
    (s.handleActions ⟨topics,
      (s.topic.computeNextState s.spus s.partitions).partitions.map PartitionAction.apply⟩).Inv := by
  obtain ⟨hnodup, hagree⟩ := h.childrens_computeNext
  -- the topic is not deleting, as it was not asked to be
  have hres : s.topic.status.resolution ≠ .deleting := fun hres => by
    rw [(h.deleting hres).1] at hdel
    cases hdel
  rcases htopics with rfl | rfl
  · rw [handleActions_nil]
    exact {
      ordered := h.ordered
      mapOk := h.mapOk
      nodup := hnodup
      agree := hagree _ fun _ _ hget => hget
      valid := h.valid
      deleting := fun hres' => absurd hres' hres }
  · obtain ⟨hord, hok, hget⟩ := s.topic.computeNextState_replicaMap s.spus s.partitions h.ordered h.mapOk
    rw [handleActions_singleton]
    exact {
      ordered := hord
      mapOk := hok
      nodup := hnodup
      agree := hagree _ hget
      valid := fun hv => (s.topic.computeNextState_validated s.spus s.partitions hv).elim h.valid id
      deleting := fun hres' => absurd hres' (s.topic.computeNextState_ne_deleting s.spus s.partitions hres) }

/-- **A reconciliation keeps the invariant.** -/
theorem Inv.reconcile (h : s.Inv) :
    (s.handleActions (s.topic.updateActionsNextState s.spus s.partitions)).Inv := by
  rcases s.topic.updateActionsNextState_cases s.spus s.partitions with ⟨hdel, -, hact⟩ |
    ⟨-, -, hact⟩ | ⟨-, hprov, -, hact⟩ | ⟨hdel, -, htopics, hparts⟩
  · rw [hact]
    exact h.deleteAll hdel
  · rw [hact, handleActions_nil]
    exact h
  · rw [hact]
    exact h.pending hprov
  · generalize s.topic.updateActionsNextState s.spus s.partitions = actions at htopics hparts ⊢
    obtain ⟨topics, partitions⟩ := actions
    dsimp only at htopics hparts
    subst hparts
    exact h.computeNext hdel htopics

/-- Adding partitions to a computed topic, short of wrapping its count. -/
theorem Inv.addPartition (h : s.Inv) {count : UInt32}
    (hbound : s.topic.spec.replicas.partitions.toNat + count.toNat < 2 ^ 32)
    (hnext : s.next (.addPartition count) = some s') : s'.Inv := by
  simp only [TopicSystem.next] at hnext
  split at hnext
  · rename_i spec hspec
    cases hnext
    obtain ⟨param, hparam, rfl⟩ := TopicSpec.addPartition_ok hspec
    rw [hparam] at hbound
    have hbound' : param.partitions.toNat + count.toNat < 2 ^ 32 := hbound
    have hadd : (param.partitions + count).toNat = param.partitions.toNat + count.toNat := by
      rw [UInt32.toNat_add, Nat.mod_eq_of_lt hbound']
    have hok := h.mapOk
    have hvalid := h.valid
    rw [hparam] at hok hvalid
    obtain ⟨hkeys, hlen, hentries⟩ := hok
    exact {
      ordered := h.ordered
      mapOk := ⟨hkeys, by dsimp only; omega, hentries⟩
      nodup := h.nodup
      agree := h.agree
      valid := fun hv => by
        obtain ⟨hp, hr⟩ := hvalid hv
        refine ⟨fun h0 => hp ?_, hr⟩
        have h0' : (param.partitions + count).toNat = 0 := by
          change param.partitions + count = 0 at h0
          rw [h0]
          rfl
        rw [← UInt32.toNat_inj]
        change param.partitions.toNat = 0
        omega
      deleting := h.deleting }
  · cases hnext
    exact h

/-- An election changes a partition's leader, never its key or replicas. -/
theorem childrens_elect (s : TopicSystem) (key : ReplicaKey) (leader : SpuId) :
    s.topic.childrens (s.partitions.map fun p =>
      if p.key = key then { p with spec := { p.spec with leader := leader } } else p) =
    (s.topic.childrens s.partitions).map fun p =>
      if p.key = key then { p with spec := { p.spec with leader := leader } } else p :=
  s.topic.childrens_map s.partitions _ fun p => by split_ifs <;> rfl

/-- **Every event keeps the invariant**, adding partitions short of wrapping the count. -/
theorem Inv.next (h : s.Inv) {e : TopicEvent}
    (hbound : s.topic.spec.replicas.partitions.toNat + e.added < 2 ^ 32)
    (hnext : s.next e = some s') : s'.Inv := by
  cases e with
  | reconcile =>
    cases hnext
    exact h.reconcile
  | spus spus =>
    cases hnext
    exact ⟨h.ordered, h.mapOk, h.nodup, h.agree, h.valid, h.deleting⟩
  | addPartition count => exact h.addPartition hbound hnext
  | delete =>
    cases hnext
    exact ⟨h.ordered, h.mapOk, h.nodup, h.agree, h.valid, fun hres => ⟨rfl, (h.deleting hres).2⟩⟩
  | elect key leader =>
    cases hnext
    have hchildren := childrens_elect s key leader
    refine ⟨h.ordered, h.mapOk, ?_, ?_, h.valid, ?_⟩
    · dsimp only
      rw [hchildren, List.map_map]
      convert h.nodup using 2
      funext p
      simp only [Function.comp_apply]
      split_ifs <;> rfl
    · dsimp only
      rw [hchildren]
      intro p hp
      obtain ⟨q, hq, rfl⟩ := List.mem_map.mp hp
      split_ifs
      · exact h.agree q hq
      · exact h.agree q hq
    · intro hres
      refine ⟨(h.deleting hres).1, ?_⟩
      dsimp only
      rw [hchildren, (h.deleting hres).2, List.map_nil]
  | otherPartitions partitions =>
    cases hnext
    have hchildren := s.topic.childrens_otherPartitions s.partitions partitions
    refine ⟨h.ordered, h.mapOk, ?_, ?_, h.valid, ?_⟩
    · dsimp only
      rw [hchildren]
      exact h.nodup
    · dsimp only
      rw [hchildren]
      exact h.agree
    · dsimp only
      rw [hchildren]
      exact h.deleting

/-- Only added partitions raise the topic's partition count, and without wrapping. -/
theorem partitions_next {e : TopicEvent}
    (hbound : s.topic.spec.replicas.partitions.toNat + e.added < 2 ^ 32)
    (hnext : s.next e = some s') :
    s'.topic.spec.replicas.partitions.toNat ≤ s.topic.spec.replicas.partitions.toNat + e.added := by
  cases e with
  | addPartition count =>
    simp only [TopicSystem.next] at hnext
    split at hnext
    · rename_i spec hspec
      cases hnext
      obtain ⟨param, hparam, rfl⟩ := TopicSpec.addPartition_ok hspec
      rw [hparam] at hbound ⊢
      have hbound' : param.partitions.toNat + count.toNat < 2 ^ 32 := hbound
      change (param.partitions + count).toNat ≤ param.partitions.toNat + count.toNat
      rw [UInt32.toNat_add, Nat.mod_eq_of_lt hbound']
    · cases hnext
      exact Nat.le_add_right _ _
  | reconcile | spus | delete | elect | otherPartitions =>
    cases hnext
    exact Nat.le_add_right _ _

/-- **Run induction**: the invariant holds after every run that adds fewer partitions than would
wrap the count. -/
theorem Inv.run : ∀ {s s' : TopicSystem} {events : List TopicEvent}, s.Inv →
    s.topic.spec.replicas.partitions.toNat + (events.map TopicEvent.added).sum < 2 ^ 32 →
    Trace.run TopicSystem.next s events = some s' → s'.Inv
  | _, _, [], h, _, hrun => by
    cases hrun
    exact h
  | _, _, e :: events, h, hbound, hrun => by
    simp only [Trace.run, Option.bind_eq_some_iff] at hrun
    obtain ⟨s₁, hnext, hrest⟩ := hrun
    rw [List.map_cons, List.sum_cons] at hbound
    have hle := partitions_next (by omega) hnext
    exact Inv.run (h.next (by omega) hnext) (by omega) hrest

/-- A new topic: its status the default, and none of its partitions in the store. -/
theorem Inv.init (hstatus : s.topic.status = TopicStatus.default)
    (hnone : s.topic.childrens s.partitions = []) : s.Inv where
  ordered := by rw [hstatus]; exact List.Pairwise.nil
  mapOk := by
    rw [hstatus]
    cases s.topic.spec.replicas with
    | computed param => exact ⟨rfl, Nat.zero_le _, fun _ he => nomatch he⟩
    | assigned maps => exact .inl rfl
  nodup := by rw [hnone]; exact List.nodup_nil
  agree := by rw [hnone]; exact fun _ hp => nomatch hp
  valid := by rw [hstatus]; exact fun hv => hv.elim
  deleting := by rw [hstatus]; exact fun hres => nomatch hres

/-- **The topic invariant holds along every run** of a new topic (its status the default, none of
its partitions in the store) whose added partitions never wrap the count. -/
theorem run_inv {events : List TopicEvent} (hstatus : s.topic.status = TopicStatus.default)
    (hnone : s.topic.childrens s.partitions = [])
    (hbound : s.topic.spec.replicas.partitions.toNat + (events.map TopicEvent.added).sum < 2 ^ 32)
    (hrun : Trace.run TopicSystem.next s events = some s') : s'.Inv :=
  (Inv.init hstatus hnone).run hbound hrun

/-- A new computed topic of two partitions on two SPUs, reconciled, given a partition more, and
reconciled again. -/
theorem run_inv_twoSpus : ∃ s', Trace.run TopicSystem.next
    ⟨⟨"topic", ⟨.computed ⟨2, 2⟩, false⟩, .default, false⟩, [⟨0, true⟩, ⟨1, true⟩], []⟩
    [.reconcile, .reconcile, .reconcile, .addPartition 1, .reconcile, .reconcile, .reconcile] = some s' ∧
    s'.Inv := by
  obtain ⟨s', hrun⟩ : ∃ s', Trace.run TopicSystem.next
      ⟨⟨"topic", ⟨.computed ⟨2, 2⟩, false⟩, .default, false⟩, [⟨0, true⟩, ⟨1, true⟩], []⟩
      [.reconcile, .reconcile, .reconcile, .addPartition 1, .reconcile, .reconcile, .reconcile] = some s' :=
    ⟨_, rfl⟩
  exact ⟨s', hrun, run_inv (by rfl) (by rfl) (by decide) hrun⟩

/-- A deleted topic: asked to be deleted, `Deleting`, and with no partition left. -/
def Deleted (s : TopicSystem) : Prop :=
  s.topic.beingDeleted = true ∧ s.topic.status.resolution = .deleting ∧ s.topic.childrens s.partitions = []

/-- Nothing brings a deleted topic back. -/
theorem Deleted.next (h : s.Deleted) {e : TopicEvent} (hnext : s.next e = some s') : s'.Deleted := by
  obtain ⟨hdel, hres, hnone⟩ := h
  cases e with
  | reconcile =>
    cases hnext
    rcases s.topic.updateActionsNextState_cases s.spus s.partitions with ⟨-, hres', -⟩ |
      ⟨-, -, hact⟩ | ⟨hdel', -⟩ | ⟨hdel', -⟩
    · exact absurd hres hres'
    · rw [hact, handleActions_nil]
      exact ⟨hdel, hres, hnone⟩
    all_goals
      rw [hdel] at hdel'
      cases hdel'
  | spus spus =>
    cases hnext
    exact ⟨hdel, hres, hnone⟩
  | addPartition count =>
    simp only [TopicSystem.next] at hnext
    split at hnext <;> cases hnext <;> exact ⟨hdel, hres, hnone⟩
  | delete =>
    cases hnext
    exact ⟨rfl, hres, hnone⟩
  | elect key leader =>
    cases hnext
    refine ⟨hdel, hres, ?_⟩
    dsimp only
    rw [childrens_elect, hnone, List.map_nil]
  | otherPartitions partitions =>
    cases hnext
    refine ⟨hdel, hres, ?_⟩
    dsimp only
    rw [TopicMetadata.childrens_otherPartitions]
    exact hnone

/-- **Deletion**: a topic asked to be deleted is `Deleting` after the next reconciliation, with
none of its partitions left, and stays so along every run that follows. -/
theorem delete_reconcile (h : s.Inv) (hdel : s.topic.beingDeleted = true) {s₁ : TopicSystem}
    (hnext : s.next .reconcile = some s₁) {events : List TopicEvent}
    (hrun : Trace.run TopicSystem.next s₁ events = some s') : s'.Deleted := by
  have h₁ : s₁.Deleted := by
    cases hnext
    rcases s.topic.updateActionsNextState_cases s.spus s.partitions with ⟨-, -, hact⟩ |
      ⟨-, hres, hact⟩ | ⟨hdel', -⟩ | ⟨hdel', -⟩
    · rw [hact, handleActions_singleton]
      exact ⟨hdel, rfl, s.topic.childrens_deleteAll⟩
    · rw [hact, handleActions_nil]
      exact ⟨hdel, hres, (h.deleting hres).2⟩
    all_goals
      rw [hdel] at hdel'
      cases hdel'
  have hstep : ∀ s a s', Deleted s → True → TopicSystem.next s a = some s' → Deleted s' :=
    fun _ _ _ hs _ hnext => hs.next hnext
  exact Trace.run_invariant hstep h₁ (fun _ _ => trivial) hrun

/-- A new topic asked to be deleted, reconciled, then given new SPUs, an election, more partitions
and more reconciliations. -/
theorem delete_reconcile_newTopic : ∃ s₁ s', TopicSystem.next
    ⟨⟨"topic", ⟨.computed ⟨1, 1⟩, false⟩, .default, true⟩, [⟨0, true⟩], []⟩ .reconcile = some s₁ ∧
    Trace.run TopicSystem.next s₁
      [.spus [⟨0, true⟩, ⟨1, true⟩], .reconcile, .elect ⟨"topic", 0⟩ 1, .addPartition 1, .reconcile] =
      some s' ∧ s'.Deleted := by
  obtain ⟨s₁, hnext⟩ : ∃ s₁, TopicSystem.next
      ⟨⟨"topic", ⟨.computed ⟨1, 1⟩, false⟩, .default, true⟩, [⟨0, true⟩], []⟩ .reconcile = some s₁ :=
    ⟨_, rfl⟩
  obtain ⟨s', hrun⟩ : ∃ s', Trace.run TopicSystem.next s₁
      [.spus [⟨0, true⟩, ⟨1, true⟩], .reconcile, .elect ⟨"topic", 0⟩ 1, .addPartition 1, .reconcile] =
      some s' := by
    cases hnext
    exact ⟨_, rfl⟩
  exact ⟨s₁, s', hnext, hrun, delete_reconcile (Inv.init (by rfl) (by rfl)) (by rfl) hnext hrun⟩

/-- **A provisioned topic gets its partitions**: after the reconciliation of a provisioned topic
that is not being deleted and whose map is as long as its partition count, every entry of its
replica map has a partition of the topic with that entry's replicas. -/
theorem reconcile_provisioned (h : s.Inv) (hdel : s.topic.beingDeleted = false)
    (hprov : s.topic.status.resolution = .provisioned)
    (hlen : ¬ UInt32.ofNat s.topic.status.replicaMap.length < s.topic.spec.replicas.partitions)
    (hnext : s.next .reconcile = some s') :
    ∀ e ∈ s'.topic.status.replicaMap, ∃ p ∈ s'.topic.childrens s'.partitions,
      p.key.partition = e.1 ∧ p.spec.replicas = e.2 := by
  cases hnext
  have hnext := s.topic.computeNextState_of_provisioned s.spus s.partitions hprov
  rcases s.topic.updateActionsNextState_cases s.spus s.partitions with ⟨hdel', -⟩ | ⟨hdel', -⟩ |
    ⟨-, -, hshort, -⟩ | ⟨-, -, htopics, hparts⟩
  · rw [hdel] at hdel'
    cases hdel'
  · rw [hdel] at hdel'
    cases hdel'
  · exact absurd hshort hlen
  generalize s.topic.updateActionsNextState s.spus s.partitions = actions at htopics hparts ⊢
  obtain ⟨topics, partitions⟩ := actions
  dsimp only at htopics hparts
  subst hparts
  rw [hnext] at htopics ⊢
  -- the map stays: the next state brings none
  have hmap : (topics.getLast?.getD s.topic.status).replicaMap = s.topic.status.replicaMap := by
    rcases htopics with rfl | rfl
    · rfl
    · exact TopicNextState.applyAsNextState_replicaMap_of_nil _ rfl
  have hchildren := s.topic.childrens_foldl_run ((s.topic.createNewPartitions s.partitions).map .apply)
    (fun p hp => by
      obtain ⟨q, hq, hqp⟩ := List.mem_map.mp hp
      cases hqp
      obtain ⟨e, -, hkey, -⟩ := s.topic.mem_createNewPartitions hq
      rw [hkey]) s.partitions
  intro e he
  change e ∈ (topics.getLast?.getD s.topic.status).replicaMap at he
  rw [hmap] at he
  have hget := ReplicaMap.get_of_mem h.ordered.nodup he
  change ∃ p ∈ s.topic.childrens (((s.topic.createNewPartitions s.partitions).map .apply).foldl
    PartitionAction.run s.partitions), _
  rw [hchildren]
  -- a partition at the entry's key: kept, or created from the entry
  obtain ⟨p, hp, hkey, hreplicas⟩ := PartitionAction.exists_key_foldl_apply (k := ⟨s.topic.key, e.1⟩)
    (v := e.2) _ (fun q hq hkey => by
      obtain ⟨e', he', hkey', hreplicas⟩ := s.topic.mem_createNewPartitions hq
      have he1 : e'.1 = e.1 := (ReplicaKey.mk.inj (hkey'.symm.trans hkey)).2
      have hget' := ReplicaMap.get_of_mem h.ordered.nodup he'
      rw [he1] at hget'
      rw [hreplicas]
      exact Option.some.inj (hget'.symm.trans hget)) _ (by
      by_cases hold : ∃ c ∈ s.topic.childrens s.partitions, c.key = ⟨s.topic.key, e.1⟩
      · obtain ⟨c, hc, hckey⟩ := hold
        have hagree := h.agree c hc
        rw [hckey] at hagree
        exact .inl ⟨c, hc, hckey, Option.some.inj (hagree.symm.trans hget)⟩
      · refine .inr ⟨⟨⟨s.topic.key, e.1⟩, PartitionSpec.fromReplicas e.2, PartitionStatus.default⟩, ?_, rfl⟩
        refine List.mem_filterMap.mpr ⟨e, he, ?_⟩
        dsimp only
        rw [if_neg]
        intro hany
        obtain ⟨c, hc, hckey⟩ := List.any_eq_true.mp hany
        have hckey : c.key = ⟨s.topic.key, e.1⟩ := of_decide_eq_true hckey
        exact hold ⟨c, List.mem_filter.mpr ⟨hc, by simp [hckey]⟩, hckey⟩)
  exact ⟨p, hp, by rw [hkey], hreplicas⟩

/-- Two SPUs, a computed topic of two partitions on both: after two reconciliations it is
provisioned with a map and no partition, and the third creates them. -/
theorem reconcile_provisioned_twoSpus : ∃ s s', Trace.run TopicSystem.next
    ⟨⟨"topic", ⟨.computed ⟨2, 2⟩, false⟩, .default, false⟩, [⟨0, true⟩, ⟨1, true⟩], []⟩
    [.reconcile, .reconcile] = some s ∧ s.next .reconcile = some s' ∧
    ∀ e ∈ s'.topic.status.replicaMap, ∃ p ∈ s'.topic.childrens s'.partitions,
      p.key.partition = e.1 ∧ p.spec.replicas = e.2 := by
  obtain ⟨s, hrun⟩ : ∃ s, Trace.run TopicSystem.next
      ⟨⟨"topic", ⟨.computed ⟨2, 2⟩, false⟩, .default, false⟩, [⟨0, true⟩, ⟨1, true⟩], []⟩
      [.reconcile, .reconcile] = some s := ⟨_, rfl⟩
  have hfacts : (Trace.run TopicSystem.next
      ⟨⟨"topic", ⟨.computed ⟨2, 2⟩, false⟩, .default, false⟩, [⟨0, true⟩, ⟨1, true⟩], []⟩
      [.reconcile, .reconcile]).map (fun s => (s.topic.beingDeleted, s.topic.status.resolution,
        decide (UInt32.ofNat s.topic.status.replicaMap.length < s.topic.spec.replicas.partitions))) =
      some (false, .provisioned, false) := by decide
  rw [hrun, Option.map_some, Option.some.injEq, Prod.mk.injEq, Prod.mk.injEq] at hfacts
  obtain ⟨hdel, hprov, hlen⟩ := hfacts
  exact ⟨s, _, hrun, rfl, reconcile_provisioned ((Inv.init (by rfl) (by rfl)).run (by decide) hrun)
    hdel hprov (of_decide_eq_false hlen) rfl⟩

end TopicSystem

end Fluvio.Sc
