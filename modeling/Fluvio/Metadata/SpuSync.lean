import Fluvio.Metadata.Store

/-!
Replication of SPU specs from the SC to an SPU.

The SC keeps the specs in a `LocalStore` (`Fluvio.Metadata.Store`). For each connected SPU a
change listener takes the spec changes since it last looked (`send_spu_spec_changes`,
crates/fluvio-sc/src/services/private_api/private_server.rs) and sends them as one
`UpdateSpuRequest`: the full list after a fence, otherwise the updates followed by the deletes.
The SPU keeps its own store, a map from each spec's key to the spec
(crates/fluvio-spu/src/core/store.rs), and applies the request it receives with `sync_all` when
the full list is not empty and with `apply_changes` otherwise.

* `LocalStore.syncAll_spec`, `LocalStore.applyChanges_spec` — what the SPU holds after each kind
  of request;
* `Replication` — the SC's store, one SPU's listener and that SPU's store, with the two writers
  and the send as actions;
* `Replication.Synced` — the invariant of a run whose writes file every object under the key its
  spec has on the SPU and whose sends are clean (no key both updated and deleted, no empty full
  list); `replication_sound` concludes from it.
-/

namespace Fluvio.Spu

open Fluvio.Metadata (MetadataStoreObject LSUpdate ChangeListener EpochChanges MetadataItem)

/-- `Spec`: what the SPU's stores need of a spec, the key it is filed under. -/
class Spec (S : Type) (K : outParam Type) where
  keyOwned : S → K

/-- `SpecChange`: what applying one spec did to the store. -/
inductive SpecChange (S : Type) where
  | add (s : S)
  | mod (new old : S)
  | delete (s : S)
  deriving DecidableEq, Repr

/-- `MsgType`. -/
inductive MsgType where
  | update
  | delete
  deriving DecidableEq, Repr

/-- `Message`: a spec and what to do with it. -/
structure Message (C : Type) where
  header : MsgType
  content : C
  deriving DecidableEq, Repr

/-- `Message::update`. -/
def Message.update {C : Type} (content : C) : Message C := ⟨.update, content⟩

/-- `Message::delete`. -/
def Message.delete {C : Type} (content : C) : Message C := ⟨.delete, content⟩

/-- `ControlPlaneRequest`, as `UpdateSpuRequest` for SPU specs. -/
structure ControlPlaneRequest (S : Type) where
  epoch : Metadata.Epoch
  changes : List (Message S)
  all : List S
  deriving DecidableEq, Repr

namespace ControlPlaneRequest

variable {S : Type}

/-- `ControlPlaneRequest::with_changes`. -/
def withChanges (epoch : Metadata.Epoch) (changes : List (Message S)) : ControlPlaneRequest S :=
  ⟨epoch, changes, []⟩

/-- `ControlPlaneRequest::with_all`. -/
def withAll (epoch : Metadata.Epoch) (all : List S) : ControlPlaneRequest S := ⟨epoch, [], all⟩

end ControlPlaneRequest

/-- `SpuType`. -/
inductive SpuType where
  | managed
  | custom
  deriving DecidableEq, Repr

/-- `SpuSpec`, with the fields the SPU's store reads or compares; the endpoints are left out. -/
structure SpuSpec where
  id : Int32
  spuType : SpuType
  rack : Option String
  deriving DecidableEq, Repr

/-- `impl Spec for SpuSpec`: an SPU spec is filed under its id. -/
instance : Spec SpuSpec Int32 := ⟨SpuSpec.id⟩

/-! ### The SPU's store -/

/-- The SPU's `LocalStore`: the specs by key. -/
structure LocalStore (K S : Type) where
  entries : AList (fun _ : K => S)

namespace LocalStore

variable {K S : Type} [DecidableEq K] [Spec S K]

/-- `LocalStore::default`. -/
def default : LocalStore K S := ⟨∅⟩

/-- `LocalStore::insert`: the spec under its key, with the spec it replaced. -/
def insert (ls : LocalStore K S) (spec : S) : Option S × LocalStore K S :=
  (ls.entries.lookup (Spec.keyOwned spec), ⟨ls.entries.insert (Spec.keyOwned spec) spec⟩)

/-- `LocalStore::delete`: the key removed, with the spec it held. -/
def delete (ls : LocalStore K S) (id : K) : Option S × LocalStore K S :=
  (ls.entries.lookup id, ⟨ls.entries.erase id⟩)

/-- `LocalStore::spec`. -/
def spec (ls : LocalStore K S) (key : K) : Option S := ls.entries.lookup key

/-- `LocalStore::all_keys`. -/
def allKeys (ls : LocalStore K S) : List K := ls.entries.keys

omit [Spec S K] in
@[simp] theorem default_spec (k : K) : (default : LocalStore K S).spec k = none := rfl

@[simp] theorem spec_insert (ls : LocalStore K S) (s : S) :
    (ls.insert s).2.spec = Function.update ls.spec (Spec.keyOwned s) (some s) := by
  funext k
  by_cases hk : k = Spec.keyOwned s
  · subst hk
    simp [insert, spec]
  · simp [insert, spec, hk, AList.lookup_insert_ne hk]

omit [Spec S K] in
@[simp] theorem spec_delete (ls : LocalStore K S) (id : K) :
    (ls.delete id).2.spec = Function.update ls.spec id none := by
  funext k
  by_cases hk : k = id
  · subst hk
    simp [delete, spec]
  · simp [delete, spec, hk, AList.lookup_erase_ne hk]

omit [Spec S K] in
theorem spec_ne_none_iff (ls : LocalStore K S) (k : K) : ls.spec k ≠ none ↔ k ∈ ls.allKeys := by
  simp [spec, allKeys, AList.lookup_eq_none, AList.mem_keys]

variable [DecidableEq S]

/-- One spec of `sync_all`'s first loop: it is inserted, an add or a changed spec is reported,
and a key that was there is struck off the keys left to delete. -/
def syncAllStep (acc : LocalStore K S × List (SpecChange S) × List K) (newSpu : S) :
    LocalStore K S × List (SpecChange S) × List K :=
  let id := Spec.keyOwned newSpu
  let r := acc.1.insert newSpu
  match r.1 with
  | some oldSpu =>
    (r.2, (if oldSpu = newSpu then acc.2.1 else acc.2.1 ++ [.mod newSpu oldSpu]),
      acc.2.2.filter (· != id))
  | none => (r.2, acc.2.1 ++ [.add newSpu], acc.2.2)

/-- One key of `sync_all`'s second loop: the key is deleted and reported, or skipped when it is
already gone. -/
def syncAllDelete (acc : LocalStore K S × List (SpecChange S)) (oldId : K) :
    LocalStore K S × List (SpecChange S) :=
  let r := acc.1.delete oldId
  match r.1 with
  | some oldSpu => (r.2, acc.2 ++ [.delete oldSpu])
  | none => (r.2, acc.2)

/-- `LocalStore::sync_all`: every spec inserted, then every key that was there before and is not
among them deleted; the actions taken are returned. -/
def syncAll (ls : LocalStore K S) (sourceSpecs : List S) : List (SpecChange S) × LocalStore K S :=
  let r := sourceSpecs.foldl syncAllStep (ls, [], ls.allKeys)
  let r' := r.2.2.foldl syncAllDelete (r.1, r.2.1)
  (r'.2, r'.1)

/-- One message of `apply_changes`: an update inserts its spec, a delete removes the spec's key. -/
def applyChange (acc : LocalStore K S × List (SpecChange S)) (change : Message S) :
    LocalStore K S × List (SpecChange S) :=
  match change.header with
  | .update =>
    let newSpu := change.content
    let r := acc.1.insert newSpu
    match r.1 with
    | some oldSpu => (r.2, if oldSpu = newSpu then acc.2 else acc.2 ++ [.mod newSpu oldSpu])
    | none => (r.2, acc.2 ++ [.add newSpu])
  | .delete =>
    let r := acc.1.delete (Spec.keyOwned change.content)
    match r.1 with
    | some oldSpu => (r.2, acc.2 ++ [.delete oldSpu])
    | none => (r.2, acc.2)

/-- `LocalStore::apply_changes`: the messages in order. -/
def applyChanges (ls : LocalStore K S) (changes : List (Message S)) :
    List (SpecChange S) × LocalStore K S :=
  let r := changes.foldl applyChange (ls, [])
  (r.2, r.1)

/-- `LocalStore::apply`: the full list when it is not empty, the changes otherwise. -/
def apply (ls : LocalStore K S) (all : List S) (changes : List (Message S)) :
    List (SpecChange S) × LocalStore K S :=
  if !all.isEmpty then ls.syncAll all else ls.applyChanges changes

/-! #### What the store holds after each kind of request -/

theorem syncAllStep_spec (acc : LocalStore K S × List (SpecChange S) × List K) (newSpu : S) :
    (syncAllStep acc newSpu).1.spec = Function.update acc.1.spec (Spec.keyOwned newSpu) (some newSpu) := by
  dsimp only [syncAllStep]
  split <;> exact spec_insert _ _

/-- The first loop strikes off exactly the keys it writes, provided every key left to delete is
one the store holds. -/
theorem mem_syncAllStep_keys {acc : LocalStore K S × List (SpecChange S) × List K}
    (hkeys : ∀ k ∈ acc.2.2, acc.1.spec k ≠ none) (newSpu : S) (k : K) :
    k ∈ (syncAllStep acc newSpu).2.2 ↔ k ∈ acc.2.2 ∧ k ≠ Spec.keyOwned newSpu := by
  dsimp only [syncAllStep]
  split
  · simp [List.mem_filter]
  · -- a new key was never among the keys to delete
    rename_i hnone
    refine ⟨fun hk => ⟨hk, fun he => hkeys k hk ?_⟩, And.left⟩
    subst he
    exact hnone

theorem foldl_syncAllStep (sourceSpecs : List S) (acc : LocalStore K S × List (SpecChange S) × List K)
    (hkeys : ∀ k ∈ acc.2.2, acc.1.spec k ≠ none) :
    (sourceSpecs.foldl syncAllStep acc).1.spec =
        DeltaSync.upsertAll acc.1.spec (sourceSpecs.map fun s => (Spec.keyOwned s, s)) ∧
      ∀ k, k ∈ (sourceSpecs.foldl syncAllStep acc).2.2 ↔
        k ∈ acc.2.2 ∧ k ∉ sourceSpecs.map Spec.keyOwned := by
  induction sourceSpecs generalizing acc with
  | nil => exact ⟨rfl, by simp⟩
  | cons s rest ih =>
    -- the keys left to delete stay ones the store holds, so the rest of the loop applies
    have hkeys' : ∀ k ∈ (syncAllStep acc s).2.2, (syncAllStep acc s).1.spec k ≠ none := by
      intro k hk
      obtain ⟨hk, hne⟩ := (mem_syncAllStep_keys hkeys s k).mp hk
      rw [syncAllStep_spec, Function.update_of_ne hne]
      exact hkeys k hk
    obtain ⟨hspec, hmem⟩ := ih _ hkeys'
    refine ⟨by rw [List.foldl_cons, hspec, syncAllStep_spec]; rfl, fun k => ?_⟩
    rw [List.foldl_cons, hmem, mem_syncAllStep_keys hkeys, List.map_cons, List.mem_cons]
    simp only [not_or, and_assoc, ne_eq]

omit [Spec S K] [DecidableEq S] in
theorem syncAllDelete_spec (acc : LocalStore K S × List (SpecChange S)) (oldId : K) :
    (syncAllDelete acc oldId).1.spec = Function.update acc.1.spec oldId none := by
  dsimp only [syncAllDelete]
  split <;> exact spec_delete _ _

omit [Spec S K] [DecidableEq S] in
theorem foldl_syncAllDelete (keys : List K) (acc : LocalStore K S × List (SpecChange S)) :
    (keys.foldl syncAllDelete acc).1.spec = DeltaSync.removeAll acc.1.spec keys := by
  induction keys generalizing acc with
  | nil => rfl
  | cons k keys ih => rw [List.foldl_cons, ih, syncAllDelete_spec, DeltaSync.removeAll_cons]

/-- **`sync_all` replaces the store by the list.** Every key of the list holds its last spec,
and every other key is gone. -/
theorem syncAll_spec (ls : LocalStore K S) (sourceSpecs : List S) :
    (ls.syncAll sourceSpecs).2.spec =
      DeltaSync.upsertAll (fun _ => none) (sourceSpecs.map fun s => (Spec.keyOwned s, s)) := by
  obtain ⟨hspec, hmem⟩ := foldl_syncAllStep sourceSpecs (ls, [], ls.allKeys)
    fun k hk => (spec_ne_none_iff ls k).mpr hk
  funext k
  simp only [syncAll]
  rw [foldl_syncAllDelete, DeltaSync.removeAll_apply, hspec]
  by_cases hk : k ∈ sourceSpecs.map Spec.keyOwned
  · -- a key of the list: not deleted, and written whatever was there
    rw [if_neg fun h => ((hmem k).mp h).2 hk]
    obtain ⟨s, hs, rfl⟩ := List.mem_map.mp hk
    exact DeltaSync.upsertAll_indep ⟨s, List.mem_map_of_mem hs⟩
  · -- any other key: never written, and deleted when it was there
    have hnw : ∀ v, (k, v) ∉ sourceSpecs.map fun s => (Spec.keyOwned s, s) := by
      intro v hv
      obtain ⟨s, hs, he⟩ := List.mem_map.mp hv
      exact hk (List.mem_map.mpr ⟨s, hs, (Prod.mk.inj he).1⟩)
    rw [DeltaSync.upsertAll_of_not_mem hnw, DeltaSync.upsertAll_of_not_mem hnw]
    split_ifs with hdel
    · rfl
    · by_contra hne
      exact hdel ((hmem k).mpr ⟨(spec_ne_none_iff ls k).mp hne, hk⟩)

/-- What a message does to the specs a store holds. -/
def applyTo (m : K → Option S) (change : Message S) : K → Option S :=
  Function.update m (Spec.keyOwned change.content)
    (match change.header with
      | .update => some change.content
      | .delete => none)

theorem applyChange_spec (acc : LocalStore K S × List (SpecChange S)) (change : Message S) :
    (applyChange acc change).1.spec = applyTo acc.1.spec change := by
  obtain ⟨header, content⟩ := change
  cases header with
  | update =>
    dsimp only [applyChange]
    split <;> exact spec_insert _ _
  | delete =>
    dsimp only [applyChange]
    split <;> exact spec_delete _ _

theorem foldl_applyChange (changes : List (Message S)) (acc : LocalStore K S × List (SpecChange S)) :
    (changes.foldl applyChange acc).1.spec = changes.foldl applyTo acc.1.spec := by
  induction changes generalizing acc with
  | nil => rfl
  | cons c changes ih => rw [List.foldl_cons, ih, applyChange_spec, List.foldl_cons]

/-- **`apply_changes` of updates followed by deletes.** The store holds the updates written in
order, and then the deleted keys removed. -/
theorem applyChanges_spec (ls : LocalStore K S) (updates deletes : List S) :
    (ls.applyChanges (updates.map Message.update ++ deletes.map Message.delete)).2.spec =
      DeltaSync.removeAll (DeltaSync.upsertAll ls.spec (updates.map fun s => (Spec.keyOwned s, s)))
        (deletes.map Spec.keyOwned) := by
  dsimp only [applyChanges]
  rw [foldl_applyChange, List.foldl_append, List.foldl_map, List.foldl_map]
  simp only [DeltaSync.removeAll, DeltaSync.upsertAll, List.foldl_map]
  rfl

end LocalStore

/-! ### The SC's side -/

section Send

variable {S St K C K' : Type}

/-- The request `send_spu_spec_changes` builds from the changes: the specs of the full list, or
an update for each changed object followed by a delete for each deleted one. -/
def spuRequest (changes : EpochChanges (MetadataStoreObject S St K C)) : ControlPlaneRequest S :=
  let epoch := changes.epoch
  let parts := changes.parts
  if changes.isSyncAll then ControlPlaneRequest.withAll epoch (parts.1.map (·.spec))
  else ControlPlaneRequest.withChanges epoch
    (parts.1.map (fun v => Message.update v.spec) ++ parts.2.map fun d => Message.delete d.spec)

/-- `send_spu_spec_changes`: nothing when the listener has seen every change; otherwise the
listener takes the spec changes since its epoch (and with them the store's epoch), and a request
is sent unless they are empty. -/
def sendSpuSpecChanges (listener : ChangeListener) (ls : Metadata.LocalStore S St K C) :
    Option (ControlPlaneRequest S) × ChangeListener :=
  if !listener.hasChange ls then (none, listener)
  else
    let r := listener.syncChangesWithFilter ls Metadata.specFilter
    if r.1.isEmpty then (none, r.2) else (some (spuRequest r.1), r.2)

variable [DecidableEq K'] [Spec S K'] [DecidableEq S]

/-- What the SPU holds after it applies the request for changes that are not empty: the full
list alone, or its specs with the updates written and then the deletes removed. -/
theorem apply_spuRequest (spu : LocalStore K' S) (changes : EpochChanges (MetadataStoreObject S St K C))
    (hne : changes.isEmpty = false) :
    (spu.apply (spuRequest changes).all (spuRequest changes).changes).2.spec =
      match changes.changes with
      | .syncAll all =>
        DeltaSync.upsertAll (fun _ => none) (all.map fun o => (Spec.keyOwned o.spec, o.spec))
      | .changes updates deletes =>
        DeltaSync.removeAll (DeltaSync.upsertAll spu.spec (updates.map fun o => (Spec.keyOwned o.spec, o.spec)))
          (deletes.map fun d => Spec.keyOwned d.spec) := by
  obtain ⟨epoch, changes⟩ := changes
  cases changes with
  | syncAll all =>
    -- a full list that is not empty is applied with `sync_all`
    have hall : all ≠ [] := by simpa [EpochChanges.isEmpty] using hne
    simp [spuRequest, EpochChanges.isSyncAll, EpochChanges.parts, ControlPlaneRequest.withAll,
      LocalStore.apply, hall, LocalStore.syncAll_spec, Function.comp_def]
  | changes updates deletes =>
    have happly := LocalStore.applyChanges_spec spu (updates.map (·.spec)) (deletes.map (·.spec))
    simp only [List.map_map, Function.comp_def] at happly
    simpa [spuRequest, EpochChanges.isSyncAll, EpochChanges.parts, ControlPlaneRequest.withChanges,
      LocalStore.apply, Function.comp_def] using happly

end Send

/-! ### The SC, one SPU's listener and that SPU -/

/-- The SC's store of specs, the listener of one SPU's connection, and that SPU's store. -/
structure Replication (S St K C K' : Type) where
  sc : Metadata.LocalStore S St K C
  listener : ChangeListener
  spu : LocalStore K' S

/-- What happens: either writer on the SC's store, or one run of `send_spu_spec_changes` with the
SPU applying what it receives. -/
inductive ReplicationAction (S St K C : Type) where
  | syncAll (incoming : List (MetadataStoreObject S St K C))
  | applyChanges (changes : List (LSUpdate S St K C))
  | send

namespace Replication

variable {S St K C K' : Type} [DecidableEq K] [DecidableEq K'] [Spec S K'] [DecidableEq S]

/-- A new SC store, a new listener and an empty SPU store. -/
def init : Replication S St K C K' :=
  ⟨Metadata.LocalStore.default, ChangeListener.new, LocalStore.default⟩

/-- The SC sends what changed and the SPU applies the request it receives
(`handle_update_spu_request`: `sync_all` of the full list when it is not empty, `apply_changes`
of the changes otherwise). -/
def send (r : Replication S St K C K') : Replication S St K C K' :=
  let out := sendSpuSpecChanges r.listener r.sc
  { r with
    listener := out.2
    spu := match out.1 with
      | some request => (r.spu.apply request.all request.changes).2
      | none => r.spu }

/-! #### Runs the replication is sound for -/

/-- An object filed under the key its spec has on the SPU, renamed along `f`. -/
def Keyed (f : K → K') (o : MetadataStoreObject S St K C) : Bool :=
  decide (Spec.keyOwned o.spec = f o.key)

/-- A change whose object, if it has one, is keyed. -/
def changeKeyed (f : K → K') : LSUpdate S St K C → Bool
  | .mod o => Keyed f o
  | .delete _ => true

/-- Changes the SPU can apply in the order they are sent: a full list that is not empty, or
updates and deletes of different keys. -/
def Clean (changes : EpochChanges (MetadataStoreObject S St K C)) : Bool :=
  match changes.changes with
  | .syncAll all => !all.isEmpty
  | .changes updates deletes => updates.all fun u => deletes.all fun d => u.key != d.key

/-- The replication invariant: the SC's store is well formed with every object keyed, the
listener is never ahead of it, the SPU holds the SC's specs as of the listener's epoch (renamed
along `f`) whenever that epoch is past the fence, and nothing under a key outside `f`'s range. -/
structure Synced (f : K → K') (r : Replication S St K C K') : Prop where
  sc : r.sc.WellFormed
  keyed : r.sc.store.AllInner fun o => Keyed f o = true
  last_le : r.listener.lastChange ≤ r.sc.store.epoch
  mirror : r.sc.store.fence ≤ r.listener.lastChange →
    DeltaSync.InStep (r.sc.store.view Metadata.specFilter MetadataStoreObject.key (·.spec))
      (r.listener.lastChange : WithBot Metadata.Epoch) (r.spu.spec ∘ f)
  outside : ∀ k', (∀ k, f k ≠ k') → r.spu.spec k' = none

variable {f : K → K'} {r : Replication S St K C K'}

omit [DecidableEq S] in
theorem Synced.init : (init : Replication S St K C K').Synced f where
  sc := Metadata.LocalStore.WellFormed.default
  keyed := Metadata.DualEpochMap.AllInner.new
  last_le := le_rfl
  mirror _ := ⟨fun _ _ _ h => by simp [Replication.init, Metadata.LocalStore.default,
      Metadata.DualEpochMap.new] at h,
    fun _ _ hm => absurd rfl hm⟩
  outside _ _ := rfl

/-! #### What a send does -/

omit [DecidableEq K] [DecidableEq S] in
/-- Keyed objects listed under their SPU keys are the same list with its keys renamed. -/
theorem map_keyOwned_pairs {os : List (MetadataStoreObject S St K C)} (h : ∀ o ∈ os, Keyed f o = true) :
    os.map (fun o => (Spec.keyOwned o.spec, o.spec)) =
      (os.map fun o => (o.key, o.spec)).map fun p => (f p.1, p.2) := by
  rw [List.map_map]
  refine List.map_congr_left fun o ho => ?_
  simp [of_decide_eq_true (h o ho)]

omit [DecidableEq K] [DecidableEq S] in
theorem map_keyOwned {os : List (MetadataStoreObject S St K C)} (h : ∀ o ∈ os, Keyed f o = true) :
    os.map (fun d => Spec.keyOwned d.spec) = (os.map (·.key)).map f := by
  rw [List.map_map]
  exact List.map_congr_left fun o ho => of_decide_eq_true (h o ho)

omit [DecidableEq K] in
/-- A listener that has seen every change sends nothing. -/
theorem send_of_not_hasChange (hch : r.listener.hasChange r.sc = false) : r.send = r := by
  simp [send, sendSpuSpecChanges, hch]

omit [DecidableEq K] in
/-- A listener behind the store takes the changes, and the SPU applies them unless they are
empty. -/
theorem send_of_hasChange (hch : r.listener.hasChange r.sc = true) :
    r.send = { r with
      listener := (r.listener.syncChangesWithFilter r.sc Metadata.specFilter).2
      spu := if (r.listener.syncChangesWithFilter r.sc Metadata.specFilter).1.isEmpty then r.spu
        else (r.spu.apply (spuRequest (r.listener.syncChangesWithFilter r.sc Metadata.specFilter).1).all
          (spuRequest (r.listener.syncChangesWithFilter r.sc Metadata.specFilter).1).changes).2 } := by
  simp only [send, sendSpuSpecChanges, hch, Bool.not_true, Bool.false_eq_true, if_false]
  split <;> rfl

omit [DecidableEq S] in
/-- A listener at the store's epoch has its SPU holding the SC's specs. -/
theorem Synced.spu_of_current (hs : r.Synced f) (heq : r.listener.lastChange = r.sc.store.epoch) :
    r.spu.spec ∘ f = (r.sc.store.view Metadata.specFilter MetadataStoreObject.key (·.spec)).content := by
  have hin := hs.mirror (heq ▸ hs.sc.stamped.fence_le)
  rw [heq] at hin
  exact hs.sc.stamped.eq_content_of_inStep rfl hin

/-- A listener before the fence sends the full list, which the SPU takes as it is. -/
theorem Synced.send_fenced (hs : r.Synced f) (hf : f.Injective)
    (hclean : Clean (r.listener.syncChangesWithFilter r.sc Metadata.specFilter).1 = true)
    (hch : r.listener.hasChange r.sc = true) (hfence : r.listener.lastChange < r.sc.store.fence) :
    r.send.spu.spec ∘ f = (r.sc.store.view Metadata.specFilter MetadataStoreObject.key (·.spec)).content ∧
      ∀ k', (∀ k, f k ≠ k') → r.send.spu.spec k' = none := by
  have hc : (r.listener.syncChangesWithFilter r.sc Metadata.specFilter).1 =
      ⟨r.sc.store.epoch, .syncAll r.sc.store.cloneValues⟩ := by
    simp [ChangeListener.syncChangesWithFilter, Metadata.DualEpochMap.changesSinceWithFilter, hfence]
  have hne : (r.listener.syncChangesWithFilter r.sc Metadata.specFilter).1.isEmpty = false := by
    rw [hc] at hclean ⊢
    simpa [Clean, EpochChanges.isEmpty] using hclean
  have hspu : r.send.spu.spec = DeltaSync.upsertAll (fun _ => none)
      ((r.sc.store.cloneValues.map fun o => (o.key, o.spec)).map fun p => (f p.1, p.2)) := by
    rw [send_of_hasChange hch]
    dsimp only
    rw [if_neg (by simp [hne]), apply_spuRequest _ _ hne, hc]
    exact congrArg _ (map_keyOwned_pairs fun o ho => hs.keyed.mem_cloneValues ho)
  refine ⟨?_, fun k' hk' => ?_⟩
  · rw [hspu, DeltaSync.upsertAll_map_comp hf, Metadata.LocalStore.view_content_eq_map]
    exact Metadata.LocalStore.cloneValues_upsertAll hs.sc _
  · rw [hspu, DeltaSync.upsertAll_map_of_not_mem hk']

/-- A listener past the fence sends the updates, then the deletes, since its epoch; when no key
is in both, the SPU ends where the SC's store is. -/
theorem Synced.send_delta (hs : r.Synced f) (hf : f.Injective)
    (hclean : Clean (r.listener.syncChangesWithFilter r.sc Metadata.specFilter).1 = true)
    (hch : r.listener.hasChange r.sc = true) (hfence : r.sc.store.fence ≤ r.listener.lastChange)
    (hlt : r.listener.lastChange < r.sc.store.epoch) :
    r.send.spu.spec ∘ f = (r.sc.store.view Metadata.specFilter MetadataStoreObject.key (·.spec)).content ∧
      ∀ k', (∀ k, f k ≠ k') → r.send.spu.spec k' = none := by
  set U := Metadata.DualEpochMap.sinceWithFilter Metadata.specFilter r.listener.lastChange
    (r.sc.store.values.entries.map (·.2)) with hU
  set D := Metadata.DualEpochMap.sinceWithFilter Metadata.specFilter r.listener.lastChange
    r.sc.store.deleted with hD
  have hc : (r.listener.syncChangesWithFilter r.sc Metadata.specFilter).1 =
      ⟨r.sc.store.epoch, .changes U D⟩ := by
    simp [ChangeListener.syncChangesWithFilter, Metadata.DualEpochMap.changesSinceWithFilter,
      not_lt.mpr hfence, hlt.ne, hU, hD]
  have hspu : r.send.spu.spec = DeltaSync.removeAll
      (DeltaSync.upsertAll r.spu.spec (U.map fun o => (Spec.keyOwned o.spec, o.spec)))
      (D.map fun d => Spec.keyOwned d.spec) := by
    rw [send_of_hasChange hch]
    dsimp only
    split_ifs with hempty
    · -- nothing the spec filter sees changed: no request, and nothing to write or remove
      rw [hc] at hempty
      obtain ⟨hU0, hD0⟩ : U = [] ∧ D = [] := by simpa [EpochChanges.isEmpty] using hempty
      rw [hU0, hD0]
      rfl
    · rw [apply_spuRequest _ _ (Bool.eq_false_iff.mpr hempty), hc]
  rw [map_keyOwned_pairs fun o ho => hs.keyed.mem_since_values ho,
    map_keyOwned fun d hd => hs.keyed.mem_since_deleted hd] at hspu
  -- the request's deletes come after its updates, harmlessly when no key is in both
  have hdisj : ∀ kv ∈ U.map (fun o => (o.key, o.spec)), kv.1 ∉ D.map (·.key) := by
    rw [hc] at hclean
    simp only [Clean, List.all_eq_true, bne_iff_ne] at hclean
    simp only [List.mem_map, not_exists, not_and]
    rintro _ ⟨u, hu, rfl⟩ d hd
    exact (hclean u hu d hd).symm
  refine ⟨?_, fun k' hk' => ?_⟩
  · rw [hspu, DeltaSync.removeAll_map_comp hf, DeltaSync.upsertAll_map_comp hf,
      DeltaSync.removeAll_upsertAll_comm hdisj]
    exact (hs.mirror hfence).applyDelta_eq (hs.sc.stamped.ordered rfl)
      (hs.sc.stamped.changesSince_isDelta _)
  · rw [hspu, DeltaSync.removeAll_map_of_not_mem hk', DeltaSync.upsertAll_map_of_not_mem hk']
    exact hs.outside k' hk'

/-- **A clean send brings the SPU to the SC's specs**, and the listener to the SC's epoch. -/
theorem Synced.send (hs : r.Synced f) (hf : f.Injective)
    (hclean : Clean (r.listener.syncChangesWithFilter r.sc Metadata.specFilter).1 = true) :
    r.send.listener.lastChange = r.sc.store.epoch ∧
      r.send.spu.spec ∘ f = (r.sc.store.view Metadata.specFilter MetadataStoreObject.key (·.spec)).content ∧
      ∀ k', (∀ k, f k ≠ k') → r.send.spu.spec k' = none := by
  cases hch : r.listener.hasChange r.sc with
  | false =>
    -- nothing new: the send changes nothing, and the SPU already holds the SC's specs
    have heq : r.listener.lastChange = r.sc.store.epoch :=
      le_antisymm hs.last_le (by simpa [ChangeListener.hasChange, hs.sc.published] using hch)
    rw [send_of_not_hasChange hch]
    exact ⟨heq, hs.spu_of_current heq, hs.outside⟩
  | true =>
    have hlt : r.listener.lastChange < r.sc.store.epoch := by
      simpa [ChangeListener.hasChange, hs.sc.published] using hch
    have hlast : r.send.listener.lastChange = r.sc.store.epoch := by
      rw [send_of_hasChange hch]
      exact ChangeListener.syncChangesWithFilter_epoch _ _ _
    refine ⟨hlast, ?_⟩
    by_cases hfence : r.listener.lastChange < r.sc.store.fence
    · exact hs.send_fenced hf hclean hch hfence
    · exact hs.send_delta hf hclean hch (not_lt.mp hfence) hlt

/-! #### The writers and the runs -/

variable [MetadataItem C] [DecidableEq St] [DecidableEq C]

/-- A step of the replication. -/
def next (r : Replication S St K C K') : ReplicationAction S St K C → Option (Replication S St K C K')
  | .syncAll incoming => some { r with sc := (r.sc.syncAll incoming).2 }
  | .applyChanges changes => some { r with sc := (r.sc.applyChanges changes).2 }
  | .send => some r.send

/-- An SPU spec as the SC holds it, under the SPU's name. -/
def spu5001 : MetadataStoreObject SpuSpec Unit String UInt32 :=
  ⟨⟨5001, .managed, none⟩, (), "spu-5001", ⟨0⟩⟩

/-- The SPU is registered and sent; then it is deleted and registered again before the next
send. -/
def recreateRun : List (ReplicationAction SpuSpec Unit String UInt32) :=
  [.applyChanges [.mod spu5001], .send, .applyChanges [.delete "spu-5001"], .applyChanges [.mod spu5001]]

theorem recreatedSpu_lost : ∃ r : Replication SpuSpec Unit String UInt32 Int32, ∃ request,
    Trace.run Replication.next Replication.init recreateRun = some r ∧
      (sendSpuSpecChanges r.listener r.sc).1 = some request ∧
      r.sc.content "spu-5001" = some spu5001 ∧
      (r.spu.apply request.all request.changes).2.spec 5001 = none :=
  ⟨_, _, rfl, rfl, by decide, by decide⟩

/-- The runs in which every object written is keyed and every send is clean. -/
def guardedNext (f : K → K') (r : Replication S St K C K') :
    ReplicationAction S St K C → Option (Replication S St K C K')
  | .syncAll incoming => if incoming.all (Keyed f) then r.next (.syncAll incoming) else none
  | .applyChanges changes => if changes.all (changeKeyed f) then r.next (.applyChanges changes) else none
  | .send => if Clean (r.listener.syncChangesWithFilter r.sc Metadata.specFilter).1 then r.next .send else none

theorem Synced.syncAll (hs : r.Synced f) {incoming : List (MetadataStoreObject S St K C)}
    (hk : incoming.all (Keyed f) = true) : Synced f { r with sc := (r.sc.syncAll incoming).2 } where
  sc := (hs.sc.syncAll incoming).1
  keyed := Metadata.LocalStore.syncAll_induct (Q := fun m => m.AllInner fun o => Keyed f o = true)
    r.sc incoming (fun _ h => h.incrementEpoch) (fun _ o ho h => h.update (List.all_eq_true.mp hk o ho))
    (fun _ k h => h.remove k) (fun _ h => h.markFence) hs.keyed
  last_le := by
    rw [(hs.sc.syncAll incoming).2.1]
    exact hs.last_le.trans (Int.le_add_one le_rfl)
  mirror := Metadata.LocalStore.syncAll_inStep hs.sc hs.last_le incoming
  outside := hs.outside

theorem Synced.applyChanges (hs : r.Synced f) {changes : List (LSUpdate S St K C)}
    (hk : changes.all (changeKeyed f) = true) : Synced f { r with sc := (r.sc.applyChanges changes).2 } where
  sc := hs.sc.applyChanges changes
  keyed := Metadata.LocalStore.applyChanges_induct (Q := fun m => m.AllInner fun o => Keyed f o = true)
    r.sc changes (fun _ h => h.incrementEpoch)
    (fun _ o ho h => h.update (by simpa [changeKeyed] using List.all_eq_true.mp hk _ ho))
    (fun _ k h => h.remove k) hs.keyed
  last_le := hs.last_le.trans (Metadata.LocalStore.le_applyChanges_epoch _ changes)
  -- the spec filter hides only changes that leave the spec as it was
  mirror := Metadata.LocalStore.applyChanges_inStep rfl
    (fun _ _ hd ho => Metadata.MetadataStoreObject.spec_eq_of_not_overlaps hd ho)
    hs.sc hs.last_le hs.mirror changes
  outside := hs.outside

/-- Every step of a run the replication is sound for keeps the invariant. -/
theorem Synced.next (hs : r.Synced f) (hf : f.Injective) {a : ReplicationAction S St K C}
    {r' : Replication S St K C K'} (h : r.guardedNext f a = some r') : r'.Synced f := by
  cases a with
  | syncAll incoming =>
    simp only [guardedNext, Replication.next] at h
    split_ifs at h with hk
    obtain rfl := Option.some.inj h
    exact hs.syncAll hk
  | applyChanges changes =>
    simp only [guardedNext, Replication.next] at h
    split_ifs at h with hk
    obtain rfl := Option.some.inj h
    exact hs.applyChanges hk
  | send =>
    simp only [guardedNext, Replication.next] at h
    split_ifs at h with hk
    obtain rfl := Option.some.inj h
    obtain ⟨hlast, hspu, hout⟩ := hs.send hf hk
    refine ⟨hs.sc, hs.keyed, hlast.le, fun _ => ?_, hout⟩
    -- the listener is at the epoch, where the SPU holds exactly the SC's specs
    rw [hlast, hspu]
    exact DeltaSync.InStep.of_content _

theorem Synced.reachable (hf : f.Injective) (h : Trace.Reachable (guardedNext f) Replication.init r) :
    r.Synced f :=
  Trace.Reachable.invariant Synced.init (fun _ _ _ hs hn => hs.next hf hn) h

end Replication

variable {S St K C K' : Type} [DecidableEq K] [DecidableEq K'] [Spec S K'] [DecidableEq S]
  [MetadataItem C] [DecidableEq St] [DecidableEq C]

/-- **Replication of SPU specs.** In every run in which each object the SC writes is filed under
the key its spec has on the SPU (renamed along an injective `f`) and each send is clean (a full
list is not empty, and no key is both updated and deleted since the listener's epoch), after
every send the SPU holds exactly the specs of the SC's objects, and nothing else. -/
theorem replication_sound {f : K → K'} (hf : f.Injective) {r r' : Replication S St K C K'}
    (hr : Trace.Reachable (Replication.guardedNext f) Replication.init r)
    (hsend : Replication.guardedNext f r .send = some r') :
    (∀ k, r'.spu.spec (f k) = (r'.sc.content k).map (·.spec)) ∧
      ∀ k', (∀ k, f k ≠ k') → r'.spu.spec k' = none := by
  have hs := Replication.Synced.reachable hf hr
  simp only [Replication.guardedNext, Replication.next] at hsend
  split_ifs at hsend with hclean
  obtain rfl := Option.some.inj hsend
  obtain ⟨-, hspu, hout⟩ := hs.send hf hclean
  refine ⟨fun k => ?_, hout⟩
  rw [← Function.comp_apply (f := r.send.spu.spec), hspu, Metadata.LocalStore.view_content_eq_map]
  rfl

/-- An SPU spec filed under its id on the SC as well. -/
def spu5001ById : MetadataStoreObject SpuSpec Unit Int32 UInt32 :=
  ⟨⟨5001, .managed, none⟩, (), 5001, ⟨0⟩⟩

theorem oneSpu_replicated : ∃ r r' : Replication SpuSpec Unit Int32 UInt32 Int32,
    Function.Injective (id : Int32 → Int32) ∧
      Trace.Reachable (Replication.guardedNext id) Replication.init r ∧
      Replication.guardedNext id r .send = some r' ∧ r'.sc.content 5001 ≠ none ∧
      ((∀ k, r'.spu.spec (id k) = (r'.sc.content k).map (·.spec)) ∧
        ∀ k', (∀ k, id k ≠ k') → r'.spu.spec k' = none) :=
  have hr : Trace.Reachable (Replication.guardedNext id) Replication.init
      ({ Replication.init with sc := (Replication.init.sc.applyChanges [.mod spu5001ById]).2 } :
        Replication SpuSpec Unit Int32 UInt32 Int32) :=
    .step (.applyChanges [.mod spu5001ById]) .init rfl
  have hsend : Replication.guardedNext id _ .send = some _ := rfl
  ⟨_, _, Function.injective_id, hr, hsend, by decide, replication_sound Function.injective_id hr hsend⟩

end Fluvio.Spu

