import Fluvio.Metadata.EpochMap
import Fluvio.Lib.Trace

/-!
The local metadata store and its change listeners (`fluvio-stream-model/src/store`): a
`DualEpochMap` of `MetadataStoreObject`s written by `sync_all` and `apply_changes`, and read by
`ChangeListener`s that each keep the epoch they last saw.

* `LocalStore.syncAll`, `LocalStore.applyChanges`, `ChangeListener.syncChangesWithFilter` — the
  source's methods; a no-op `apply_changes` rolls the epoch back (`applyChanges_cases`).
* `LocalStore.WellFormed` — the store invariant, kept by both writers.
* `Watch` — a store with one listener and the mirror it keeps from what it is given;
  `Watch.Synced` is the invariant relating the mirror to the store through the listener's
  epoch, kept by every action.
-/

namespace Fluvio.Metadata

/-- `MetadataItem`: of the item's methods, the one a diff reads. -/
class MetadataItem (C : Type) where
  isNewer : C → C → Bool

/-- `MetadataItem for u32`: a larger revision is newer. -/
instance : MetadataItem UInt32 := ⟨fun a b => decide (a > b)⟩

/-- `MetadataItem for u64`. -/
instance : MetadataItem UInt64 := ⟨fun a b => decide (a > b)⟩

/-- `MetadataContext`. -/
structure MetadataContext (C : Type) where
  item : C
  deriving DecidableEq, Repr

/-- `MetadataStoreObject`. -/
structure MetadataStoreObject (S St K C : Type) where
  spec : S
  status : St
  key : K
  ctx : MetadataContext C
  deriving DecidableEq, Repr

namespace MetadataStoreObject

variable {S St K C : Type} [MetadataItem C]

def isNewer (o another : MetadataStoreObject S St K C) : Bool :=
  MetadataItem.isNewer o.ctx.item another.ctx.item

variable [DecidableEq S] [DecidableEq St] [DecidableEq C]

/-- `DualDiff for MetadataStoreObject`: no change when the stored revision is newer, otherwise
the parts that differ; the key is not compared. -/
instance : DualDiff (MetadataStoreObject S St K C) where
  diff o newValue :=
    if o.isNewer newValue then ChangeFlag.noChange
    else ⟨o.spec != newValue.spec, o.status != newValue.status, o.ctx.item != newValue.ctx.item⟩

theorem diff_eq (o newValue : MetadataStoreObject S St K C) : DualDiff.diff o newValue =
    if o.isNewer newValue then ChangeFlag.noChange
    else ⟨o.spec != newValue.spec, o.status != newValue.status, o.ctx.item != newValue.ctx.item⟩ :=
  rfl

/-- An object is no change over itself. -/
theorem diff_self (o : MetadataStoreObject S St K C) : (DualDiff.diff o o).hasNoChanges = true := by
  rw [diff_eq]
  split <;> simp [ChangeFlag.hasNoChanges, ChangeFlag.noChange]

/-- A change the spec filter does not see leaves the spec as it was. -/
theorem spec_eq_of_not_overlaps {o newValue : MetadataStoreObject S St K C}
    (h : (DualDiff.diff o newValue).hasNoChanges = false)
    (ho : specFilter.overlaps (DualDiff.diff o newValue) = false) : newValue.spec = o.spec := by
  rw [diff_eq] at h ho
  split at h
  · simp [ChangeFlag.hasNoChanges, ChangeFlag.noChange] at h
  · rw [if_neg ‹_›] at ho
    simp only [ChangeFlag.overlaps, specFilter, Bool.true_and, Bool.false_and, Bool.or_false,
      bne_eq_false_iff_eq] at ho
    exact ho.symm

end MetadataStoreObject

/-- `LSUpdate`. -/
inductive LSUpdate (S St K C : Type) where
  | mod (obj : MetadataStoreObject S St K C)
  | delete (key : K)
  deriving DecidableEq, Repr

/-- The key an update is about. -/
def LSUpdate.key {S St K C : Type} : LSUpdate S St K C → K
  | .mod obj => obj.key
  | .delete key => key

/-- `SyncStatus`, with the counters as natural numbers. -/
structure SyncStatus where
  epoch : Epoch
  add : Nat
  updateSpec : Nat
  updateStatus : Nat
  updateMeta : Nat
  delete : Nat
  deriving DecidableEq, Repr

namespace SyncStatus

/-- The counters both writers start from. -/
def zero : SyncStatus := ⟨0, 0, 0, 0, 0, 0⟩

/-- How both writers count an `update`: the parts of the diff, or an addition. -/
def countUpdate (st : SyncStatus) : Option ChangeFlag → SyncStatus
  | some diff =>
    { st with
      updateSpec := if diff.spec then st.updateSpec + 1 else st.updateSpec
      updateStatus := if diff.status then st.updateStatus + 1 else st.updateStatus
      updateMeta := if diff.meta' then st.updateMeta + 1 else st.updateMeta }
  | none => { st with add := st.add + 1 }

def countDelete (st : SyncStatus) : SyncStatus := { st with delete := st.delete + 1 }

/-- The test `apply_changes` rolls the epoch back on. -/
def hasNoChanges (st : SyncStatus) : Bool :=
  st.add == 0 && st.updateSpec == 0 && st.updateStatus == 0 && st.delete == 0 && st.updateMeta == 0

/-- The sum of the counters. -/
def total (st : SyncStatus) : Nat := st.add + st.updateSpec + st.updateStatus + st.updateMeta + st.delete

theorem hasNoChanges_iff (st : SyncStatus) : st.hasNoChanges = true ↔ st.total = 0 := by
  simp only [hasNoChanges, total, Bool.and_eq_true, beq_iff_eq]
  omega

@[simp] theorem zero_total : zero.total = 0 := rfl

@[simp] theorem countDelete_total (st : SyncStatus) : st.countDelete.total = st.total + 1 := by
  simp only [countDelete, total]
  omega

/-- Counting an update raises the total unless the diff flags nothing. -/
theorem countUpdate_total (st : SyncStatus) (r : Option ChangeFlag) :
    st.total ≤ (st.countUpdate r).total ∧
      ((st.countUpdate r).total = st.total → ∃ d, r = some d ∧ d.hasNoChanges = true) := by
  cases r with
  | none => simp only [countUpdate, total]; omega
  | some d =>
    obtain ⟨spec, status, meta'⟩ := d
    cases spec <;> cases status <;> cases meta' <;>
      simp only [countUpdate, total, ChangeFlag.hasNoChanges] <;> simp <;> omega

/-- Counting a diff that flags nothing changes no counter. -/
theorem countUpdate_of_hasNoChanges (st : SyncStatus) {d : ChangeFlag} (h : d.hasNoChanges = true) :
    st.countUpdate (some d) = st := by
  obtain ⟨spec, status, meta'⟩ := d
  cases spec <;> cases status <;> cases meta' <;> simp_all [countUpdate, ChangeFlag.hasNoChanges]

end SyncStatus

/-- `LocalStore`: the map behind the lock, and the epoch its event publisher last announced
(`EventPublisher::current_change`). -/
structure LocalStore (S St K C : Type) where
  store : DualEpochMap K (MetadataStoreObject S St K C)
  currentChange : Epoch

/-- `ChangeListener`: the epoch of the last change it took. -/
structure ChangeListener where
  lastChange : Epoch
  deriving DecidableEq, Repr

namespace LocalStore

variable {S St K C : Type} [DecidableEq K]

/-- `LocalStore::default`. -/
def default : LocalStore S St K C := ⟨DualEpochMap.new, 0⟩

/-- The objects the store holds. -/
def content (ls : LocalStore S St K C) (k : K) : Option (MetadataStoreObject S St K C) :=
  (ls.store.values.lookup k).map (·.inner)

/-- The store invariant: the map is well stamped with objects under their own key, and the
publisher has announced the map's epoch. -/
structure WellFormed (ls : LocalStore S St K C) : Prop where
  stamped : ls.store.WellStamped MetadataStoreObject.key
  published : ls.currentChange = ls.store.epoch

theorem WellFormed.default : (default : LocalStore S St K C).WellFormed :=
  ⟨DualEpochMap.WellStamped.new, rfl⟩

variable [MetadataItem C] [DecidableEq S] [DecidableEq St] [DecidableEq C]

/-- One object of `sync_all`'s first loop: update it, count the result, and strike its key
from the keys still to delete. -/
def syncAllStep (acc : DualEpochMap K (MetadataStoreObject S St K C) × SyncStatus × List K)
    (source : MetadataStoreObject S St K C) :
    DualEpochMap K (MetadataStoreObject S St K C) × SyncStatus × List K :=
  let r := acc.1.update source.key source
  (r.2, acc.2.1.countUpdate r.1, acc.2.2.filter (· != source.key))

/-- One key of `sync_all`'s second loop: remove a key that is still there. -/
def syncAllDelete (acc : DualEpochMap K (MetadataStoreObject S St K C) × SyncStatus) (name : K) :
    DualEpochMap K (MetadataStoreObject S St K C) × SyncStatus :=
  if name ∈ acc.1.values then
    match acc.1.remove name with
    | (some _, m) => (m, acc.2.countDelete)
    | (none, m) => (m, acc.2)
  else acc

/-- `LocalStore::sync_all`: a new epoch, every incoming object updated, every other key removed,
and the fence moved to the epoch. -/
def syncAll (ls : LocalStore S St K C) (incomingChanges : List (MetadataStoreObject S St K C)) :
    SyncStatus × LocalStore S St K C :=
  let r := incomingChanges.foldl syncAllStep (ls.store.incrementEpoch, SyncStatus.zero, ls.store.cloneKeys)
  let r' := r.2.2.foldl syncAllDelete (r.1, r.2.1)
  let m := r'.1.markFence
  ({ r'.2 with epoch := m.epoch }, ⟨m, m.epoch⟩)

/-- One change of `apply_changes`; a delete is counted whether or not the key was there. -/
def applyChange (acc : DualEpochMap K (MetadataStoreObject S St K C) × SyncStatus) :
    LSUpdate S St K C → DualEpochMap K (MetadataStoreObject S St K C) × SyncStatus
  | .mod newKvValue =>
    let r := acc.1.update newKvValue.key newKvValue
    (r.2, acc.2.countUpdate r.1)
  | .delete key => ((acc.1.remove key).2, acc.2.countDelete)

/-- `LocalStore::apply_changes`: a new epoch and every change applied; when nothing was counted
the epoch is rolled back and nothing is published. -/
def applyChanges (ls : LocalStore S St K C) (changes : List (LSUpdate S St K C)) :
    Option SyncStatus × LocalStore S St K C :=
  let r := changes.foldl applyChange (ls.store.incrementEpoch, SyncStatus.zero)
  if r.2.hasNoChanges then (none, { ls with store := r.1.decrementEpoch })
  else (some { r.2 with epoch := r.1.epoch }, ⟨r.1, r.1.epoch⟩)

/-! ### What one change does -/

section Writes

variable {acc : DualEpochMap K (MetadataStoreObject S St K C) × SyncStatus} {c : LSUpdate S St K C}

@[simp] theorem applyChange_epoch : (applyChange acc c).1.epoch = acc.1.epoch := by
  cases c <;> simp [applyChange]

@[simp] theorem applyChange_fence : (applyChange acc c).1.fence = acc.1.fence := by
  cases c <;> simp [applyChange]

theorem applyChange_wellStamped (hw : acc.1.WellStamped MetadataStoreObject.key) :
    (applyChange acc c).1.WellStamped MetadataStoreObject.key := by
  cases c with
  | mod o => exact hw.update rfl
  | delete k => exact hw.remove

/-- A change at a newer epoch than a reader's is a frame of what the reader sees. -/
theorem applyChange_frame {W : Type} {f : ChangeFlag} {msg : MetadataStoreObject S St K C → W}
    (hw : acc.1.WellStamped MetadataStoreObject.key) {l : Epoch} (hl : l < acc.1.epoch)
    (hf : f.hasNoChanges = false)
    (hmsg : ∀ old new : MetadataStoreObject S St K C, (DualDiff.diff old new).hasNoChanges = false →
      f.overlaps (DualDiff.diff old new) = false → msg new = msg old) :
    DeltaSync.Frame (l : WithBot Epoch) (acc.1.view f MetadataStoreObject.key msg)
      ((applyChange acc c).1.view f MetadataStoreObject.key msg) := by
  cases c with
  | mod o => exact DualEpochMap.update_frame hl hf hmsg _ _
  | delete k => exact hw.remove_frame hl hf k

/-- A change raises the count unless it leaves everything as it was. -/
theorem applyChange_total : acc.2.total ≤ (applyChange acc c).2.total ∧
    ((applyChange acc c).2.total = acc.2.total → applyChange acc c = acc) := by
  cases c with
  | mod o =>
    obtain ⟨hle, heq⟩ := acc.2.countUpdate_total (acc.1.update o.key o).1
    refine ⟨hle, fun h => ?_⟩
    obtain ⟨d, hd, hnone⟩ := heq h
    simp only [applyChange, hd, SyncStatus.countUpdate_of_hasNoChanges _ hnone,
      DualEpochMap.update_eq_self hd hnone]
  | delete k =>
    simp only [applyChange, SyncStatus.countDelete_total]
    omega

end Writes

/-! ### The loop of `apply_changes` -/

section Loop

variable (changes : List (LSUpdate S St K C))

theorem foldl_applyChange_epoch (acc : DualEpochMap K (MetadataStoreObject S St K C) × SyncStatus) :
    (changes.foldl applyChange acc).1.epoch = acc.1.epoch ∧
      (changes.foldl applyChange acc).1.fence = acc.1.fence :=
  List.foldlRecOn (motive := fun b => b.1.epoch = acc.1.epoch ∧ b.1.fence = acc.1.fence)
    changes applyChange ⟨rfl, rfl⟩ fun b hb _ _ => by simpa using hb

theorem foldl_applyChange_wellStamped {acc : DualEpochMap K (MetadataStoreObject S St K C) × SyncStatus}
    (hw : acc.1.WellStamped MetadataStoreObject.key) :
    (changes.foldl applyChange acc).1.WellStamped MetadataStoreObject.key :=
  List.foldlRecOn (motive := fun b => b.1.WellStamped MetadataStoreObject.key)
    changes applyChange hw fun _ hb _ _ => applyChange_wellStamped hb

/-- The whole loop, at a newer epoch than a reader's, is a frame of what the reader sees. -/
theorem foldl_applyChange_frame {W : Type} {f : ChangeFlag} {msg : MetadataStoreObject S St K C → W}
    (acc : DualEpochMap K (MetadataStoreObject S St K C) × SyncStatus)
    (hw : acc.1.WellStamped MetadataStoreObject.key) {l : Epoch} (hl : l < acc.1.epoch)
    (hf : f.hasNoChanges = false)
    (hmsg : ∀ old new : MetadataStoreObject S St K C, (DualDiff.diff old new).hasNoChanges = false →
      f.overlaps (DualDiff.diff old new) = false → msg new = msg old) :
    DeltaSync.Frame (l : WithBot Epoch) (acc.1.view f MetadataStoreObject.key msg)
      ((changes.foldl applyChange acc).1.view f MetadataStoreObject.key msg) := by
  -- the frame is carried with the invariant and the epoch, one change at a time
  have := List.foldlRecOn (motive := fun b => b.1.WellStamped MetadataStoreObject.key ∧
      b.1.epoch = acc.1.epoch ∧ DeltaSync.Frame (l : WithBot Epoch) (acc.1.view f MetadataStoreObject.key msg)
        (b.1.view f MetadataStoreObject.key msg))
    changes applyChange ⟨hw, rfl, DeltaSync.Frame.refl _ _⟩ fun b ⟨hb, he, hfr⟩ _ _ =>
      ⟨applyChange_wellStamped hb, by simpa using he,
        hfr.trans (applyChange_frame hb (he ▸ hl) hf hmsg)⟩
  exact this.2.2

/-- A loop that counts nothing changes nothing. -/
theorem foldl_applyChange_total (acc : DualEpochMap K (MetadataStoreObject S St K C) × SyncStatus) :
    acc.2.total ≤ (changes.foldl applyChange acc).2.total ∧
      ((changes.foldl applyChange acc).2.total = acc.2.total → changes.foldl applyChange acc = acc) :=
  List.foldlRecOn (motive := fun b => acc.2.total ≤ b.2.total ∧ (b.2.total = acc.2.total → b = acc))
    changes applyChange ⟨le_rfl, fun _ => rfl⟩ fun b ⟨hle, heq⟩ _ _ => by
    obtain ⟨hle', heq'⟩ : b.2.total ≤ (applyChange b _).2.total ∧ _ := applyChange_total
    refine ⟨hle.trans hle', fun h => ?_⟩
    have hb : b.2.total = acc.2.total := le_antisymm (h ▸ hle') hle
    rw [heq' (h.trans hb.symm), heq hb]

end Loop

/-- **What `apply_changes` does.** Either nothing at all (the epoch it took is rolled back and
nothing is published), or the loop's result one epoch later, published. -/
theorem applyChanges_cases (ls : LocalStore S St K C) (changes : List (LSUpdate S St K C)) :
    (ls.applyChanges changes).2 = ls ∨
      (ls.applyChanges changes).2 =
        ⟨(changes.foldl applyChange (ls.store.incrementEpoch, SyncStatus.zero)).1, ls.store.epoch + 1⟩ := by
  obtain ⟨hepoch, -⟩ := foldl_applyChange_epoch changes (ls.store.incrementEpoch, SyncStatus.zero)
  dsimp only [applyChanges]
  split
  · -- nothing counted: the loop left the map of the new epoch, which is rolled back
    rename_i hno
    left
    have hsame := (foldl_applyChange_total changes (ls.store.incrementEpoch, SyncStatus.zero)).2
      (by rw [(SyncStatus.hasNoChanges_iff _).mp hno, SyncStatus.zero_total])
    simp only [hsame, DualEpochMap.decrementEpoch_incrementEpoch]
  · right
    simp [hepoch]

/-! ### Applying the same changes again -/

section Again

/-- The entry under an object's key is one that the object would not change. -/
def Settled (m : DualEpochMap K (MetadataStoreObject S St K C)) (o : MetadataStoreObject S St K C) : Prop :=
  ∃ c, m.values.lookup o.key = some c ∧ (DualDiff.diff c.inner o).hasNoChanges = true

/-- After an object is written, its key holds an entry it would not change. -/
theorem settled_update (m : DualEpochMap K (MetadataStoreObject S St K C)) (o : MetadataStoreObject S St K C) :
    Settled (m.update o.key o).2 o := by
  rcases h0 : m.values.lookup o.key with _ | c
  · refine ⟨(DualEpochCounter.new o).setEpoch m.epoch, ?_, ?_⟩
    · rw [DualEpochMap.update_of_lookup_none h0, AList.lookup_insert]
    · simpa using MetadataStoreObject.diff_self o
  · cases hd : (DualDiff.diff c.inner o).hasNoChanges
    · refine ⟨c.restamp o (DualDiff.diff c.inner o) m.epoch, ?_, ?_⟩
      · rw [DualEpochMap.update_of_change h0 hd, AList.lookup_insert]
      · simpa using MetadataStoreObject.diff_self o
    · exact ⟨c, by rw [DualEpochMap.update_of_noChange h0 hd, h0], hd⟩

/-- Writing objects of other keys leaves a key's entry alone. -/
theorem foldl_applyChange_lookup (changes : List (LSUpdate S St K C)) {k : K}
    (hmods : ∀ c ∈ changes, ∃ o, c = .mod o ∧ o.key ≠ k)
    (acc : DualEpochMap K (MetadataStoreObject S St K C) × SyncStatus) :
    (changes.foldl applyChange acc).1.values.lookup k = acc.1.values.lookup k :=
  List.foldlRecOn (motive := fun b => b.1.values.lookup k = acc.1.values.lookup k)
    changes applyChange rfl fun b hb c hc => by
      obtain ⟨o, rfl, hk⟩ := hmods c hc
      rw [← hb]
      exact DualEpochMap.lookup_update_ne (Ne.symm hk)

/-- After the loop over objects of distinct keys, every one of them is settled. -/
theorem settled_foldl_applyChange :
    ∀ (changes : List (LSUpdate S St K C)), (∀ c ∈ changes, ∃ o, c = .mod o) →
      (changes.map LSUpdate.key).Nodup →
      ∀ (acc : DualEpochMap K (MetadataStoreObject S St K C) × SyncStatus) o, .mod o ∈ changes →
        Settled (changes.foldl applyChange acc).1 o
  | [], _, _, _, _, h => by cases h
  | c :: rest, hmods, hkeys, acc, o, ho => by
    rw [List.map_cons, List.nodup_cons] at hkeys
    obtain ⟨o', rfl⟩ := hmods c List.mem_cons_self
    have hrest : ∀ c ∈ rest, ∃ o, c = .mod o := fun c hc => hmods c (List.mem_cons_of_mem _ hc)
    rw [List.foldl_cons]
    rcases List.mem_cons.mp ho with h | h
    · -- the object written first is not touched by the later ones, whose keys differ
      cases h
      obtain ⟨c, hc, hd⟩ := settled_update acc.1 o
      refine ⟨c, ?_, hd⟩
      rw [foldl_applyChange_lookup rest (fun c' hc' => ?_)]
      · exact hc
      · obtain ⟨o'', rfl⟩ := hrest c' hc'
        exact ⟨o'', rfl, fun he => hkeys.1 (List.mem_map.mpr ⟨_, hc', he⟩)⟩
    · exact settled_foldl_applyChange rest hrest hkeys.2 _ o h

/-- Over a map in which every object of the list is settled, the loop changes nothing and
counts nothing. -/
theorem foldl_applyChange_settled (changes : List (LSUpdate S St K C))
    {acc : DualEpochMap K (MetadataStoreObject S St K C) × SyncStatus}
    (hsettled : ∀ c ∈ changes, ∃ o, c = .mod o ∧ Settled acc.1 o) :
    changes.foldl applyChange acc = acc :=
  List.foldlRecOn (motive := fun b => b = acc) changes applyChange rfl fun b hb c hc => by
    obtain ⟨o, rfl, c', hc', hd⟩ := hsettled c hc
    subst hb
    simp only [applyChange, DualEpochMap.update_of_noChange hc' hd,
      SyncStatus.countUpdate_of_hasNoChanges _ hd]

/-- What `apply_changes` leaves is the loop's map, rolled back or not. -/
theorem applyChanges_values (ls : LocalStore S St K C) (changes : List (LSUpdate S St K C)) :
    (ls.applyChanges changes).2.store.values =
      (changes.foldl applyChange (ls.store.incrementEpoch, SyncStatus.zero)).1.values := by
  dsimp only [applyChanges]
  split
  · -- rolled back: the loop counted nothing, so it left the map as it was
    rename_i hno
    rw [(foldl_applyChange_total changes _).2 (by rw [(SyncStatus.hasNoChanges_iff _).mp hno,
      SyncStatus.zero_total])]
    rfl
  · rfl

end Again

theorem WellFormed.applyChanges {ls : LocalStore S St K C} (h : ls.WellFormed)
    (changes : List (LSUpdate S St K C)) : (ls.applyChanges changes).2.WellFormed := by
  rcases applyChanges_cases ls changes with heq | heq <;> rw [heq]
  · exact h
  · exact ⟨foldl_applyChange_wellStamped changes h.stamped.incrementEpoch,
      by simp [(foldl_applyChange_epoch changes _).1]⟩

/-- **Induction over `apply_changes`.** A property of the map that the new epoch, each update
with an object of the list and each removal keep, `apply_changes` keeps. -/
theorem applyChanges_induct {Q : DualEpochMap K (MetadataStoreObject S St K C) → Prop}
    (ls : LocalStore S St K C) (changes : List (LSUpdate S St K C))
    (hinc : ∀ m, Q m → Q m.incrementEpoch)
    (hupd : ∀ m o, .mod o ∈ changes → Q m → Q (m.update o.key o).2)
    (hrem : ∀ m k, Q m → Q (m.remove k).2) (h : Q ls.store) : Q (ls.applyChanges changes).2.store := by
  rcases applyChanges_cases ls changes with heq | heq <;> rw [heq]
  · exact h
  · exact List.foldlRecOn (motive := fun b : DualEpochMap K (MetadataStoreObject S St K C) × SyncStatus =>
      Q b.1) changes applyChange (hinc _ h) fun b hb c hc => by
      cases c with
      | mod o => exact hupd _ o hc hb
      | delete k => exact hrem _ k hb

/-! ### The loops of `sync_all` -/

section SyncAll

/-- The first loop keeps the invariant and the epoch. -/
theorem foldl_syncAllStep (incoming : List (MetadataStoreObject S St K C))
    (acc : DualEpochMap K (MetadataStoreObject S St K C) × SyncStatus × List K)
    (hw : acc.1.WellStamped MetadataStoreObject.key) :
    (incoming.foldl syncAllStep acc).1.WellStamped MetadataStoreObject.key ∧
      (incoming.foldl syncAllStep acc).1.epoch = acc.1.epoch :=
  List.foldlRecOn (motive := fun b => b.1.WellStamped MetadataStoreObject.key ∧ b.1.epoch = acc.1.epoch)
    incoming syncAllStep ⟨hw, rfl⟩ fun _ ⟨hb, he⟩ _ _ =>
    ⟨hb.update rfl, by simpa [syncAllStep] using he⟩

omit [MetadataItem C] [DecidableEq S] [DecidableEq St] [DecidableEq C] in
/-- A key of the second loop is removed, or skipped. -/
theorem syncAllDelete_cases (acc : DualEpochMap K (MetadataStoreObject S St K C) × SyncStatus) (name : K) :
    (syncAllDelete acc name).1 = acc.1 ∨ (syncAllDelete acc name).1 = (acc.1.remove name).2 := by
  unfold syncAllDelete
  split
  · split <;> simp_all
  · exact .inl rfl

omit [MetadataItem C] [DecidableEq S] [DecidableEq St] [DecidableEq C] in
/-- The second loop keeps the invariant and the epoch. -/
theorem foldl_syncAllDelete (keys : List K)
    (acc : DualEpochMap K (MetadataStoreObject S St K C) × SyncStatus)
    (hw : acc.1.WellStamped MetadataStoreObject.key) :
    (keys.foldl syncAllDelete acc).1.WellStamped MetadataStoreObject.key ∧
      (keys.foldl syncAllDelete acc).1.epoch = acc.1.epoch :=
  List.foldlRecOn (motive := fun b : DualEpochMap K (MetadataStoreObject S St K C) × SyncStatus =>
      b.1.WellStamped MetadataStoreObject.key ∧ b.1.epoch = acc.1.epoch)
    keys syncAllDelete ⟨hw, rfl⟩ fun b ⟨hb, he⟩ name _ => by
    rcases syncAllDelete_cases b name with h | h <;> rw [h]
    · exact ⟨hb, he⟩
    · exact ⟨hb.remove, by simpa using he⟩

/-- **What `sync_all` does to the store's bookkeeping.** One epoch later, published, with the
fence at it; the invariant is kept. -/
theorem WellFormed.syncAll {ls : LocalStore S St K C} (h : ls.WellFormed)
    (incoming : List (MetadataStoreObject S St K C)) :
    (ls.syncAll incoming).2.WellFormed ∧ (ls.syncAll incoming).2.store.epoch = ls.store.epoch + 1 ∧
      (ls.syncAll incoming).2.store.fence = ls.store.epoch + 1 := by
  obtain ⟨hw1, he1⟩ := foldl_syncAllStep incoming (ls.store.incrementEpoch, SyncStatus.zero,
    ls.store.cloneKeys) h.stamped.incrementEpoch
  obtain ⟨hw2, he2⟩ := foldl_syncAllDelete _ ((incoming.foldl syncAllStep
    (ls.store.incrementEpoch, SyncStatus.zero, ls.store.cloneKeys)).1, _) hw1
  have hstore : (ls.syncAll incoming).2.store = (List.foldl syncAllDelete
      ((incoming.foldl syncAllStep (ls.store.incrementEpoch, SyncStatus.zero, ls.store.cloneKeys)).1,
        (incoming.foldl syncAllStep (ls.store.incrementEpoch, SyncStatus.zero, ls.store.cloneKeys)).2.1)
      (incoming.foldl syncAllStep (ls.store.incrementEpoch, SyncStatus.zero, ls.store.cloneKeys)).2.2).1.markFence :=
    rfl
  refine ⟨⟨hw2.markFence, rfl⟩, ?_, ?_⟩ <;> simp [hstore, he2, he1]

omit [MetadataItem C] [DecidableEq S] [DecidableEq St] [DecidableEq C] in
/-- The second loop of `sync_all` only removes. -/
theorem foldl_syncAllDelete_induct {Q : DualEpochMap K (MetadataStoreObject S St K C) → Prop}
    (hrem : ∀ m k, Q m → Q (m.remove k).2) (keys : List K)
    (acc : DualEpochMap K (MetadataStoreObject S St K C) × SyncStatus) (h : Q acc.1) :
    Q (keys.foldl syncAllDelete acc).1 :=
  List.foldlRecOn (motive := fun b : DualEpochMap K (MetadataStoreObject S St K C) × SyncStatus => Q b.1)
    keys syncAllDelete h fun b hb name _ => by
    rcases syncAllDelete_cases b name with heq | heq <;> rw [heq]
    · exact hb
    · exact hrem _ name hb

/-- **Induction over `sync_all`.** A property of the map that the new epoch, each update with
an incoming object, each removal and the fence keep, `sync_all` keeps. -/
theorem syncAll_induct {Q : DualEpochMap K (MetadataStoreObject S St K C) → Prop}
    (ls : LocalStore S St K C) (incoming : List (MetadataStoreObject S St K C))
    (hinc : ∀ m, Q m → Q m.incrementEpoch)
    (hupd : ∀ m o, o ∈ incoming → Q m → Q (m.update o.key o).2)
    (hrem : ∀ m k, Q m → Q (m.remove k).2) (hfence : ∀ m, Q m → Q m.markFence)
    (h : Q ls.store) : Q (ls.syncAll incoming).2.store := by
  have h1 := List.foldlRecOn (motive := fun b : DualEpochMap K (MetadataStoreObject S St K C) × SyncStatus ×
      List K => Q b.1) incoming syncAllStep (b := (ls.store.incrementEpoch, SyncStatus.zero, ls.store.cloneKeys))
    (hinc _ h) fun b hb o ho => hupd _ o ho hb
  exact hfence _ (foldl_syncAllDelete_induct hrem _ (_, _) h1)

end SyncAll

/-! ### A reader of a written store

A reader that took the changes at epoch `l` sees the store through `view` with its filter and
its own message of each object. The writers never break its being in step: `apply_changes`
stamps everything it writes after `l`, and `sync_all` moves the fence past `l`. -/

section Reader

variable {W : Type} {f : ChangeFlag} {msg : MetadataStoreObject S St K C → W}
  {ls : LocalStore S St K C} {l : Epoch} {mirror : K → Option W}

omit [MetadataItem C] [DecidableEq S] [DecidableEq St] [DecidableEq C] in
/-- What a reader sees of the store's current entries is its message of the store's content. -/
theorem view_content_eq_map (ls : LocalStore S St K C) (f : ChangeFlag) (msg : MetadataStoreObject S St K C → W) :
    (ls.store.view f MetadataStoreObject.key msg).content = fun k => (ls.content k).map msg := by
  funext k
  rw [DualEpochMap.view_content, content, Option.map_map]
  rfl

omit [MetadataItem C] [DecidableEq S] [DecidableEq St] [DecidableEq C] in
/-- A full list of the store's values, written from nothing, is the store's content. -/
theorem cloneValues_upsertAll (h : ls.WellFormed) (msg : MetadataStoreObject S St K C → W) :
    DeltaSync.upsertAll (fun _ => none) (ls.store.cloneValues.map fun o => (o.key, msg o)) =
      fun k => (ls.content k).map msg := by
  refine DeltaSync.upsertAll_eq fun k w => ?_
  simp only [DualEpochMap.cloneValues, List.map_map, List.mem_map, Function.comp_def, Prod.mk.injEq,
    content, Option.map_map, Option.map_eq_some_iff]
  constructor
  · rintro ⟨⟨k', c⟩, he, hkey, rfl⟩
    have hc := AList.mem_lookup_iff.mpr he
    obtain rfl : k' = k := (h.stamped.keyed k' c hc).symm.trans hkey
    exact ⟨c, hc, rfl⟩
  · rintro ⟨c, hc, rfl⟩
    exact ⟨⟨k, c⟩, AList.mem_lookup_iff.mp hc, h.stamped.keyed k c hc, rfl⟩

theorem le_applyChanges_epoch (ls : LocalStore S St K C) (changes : List (LSUpdate S St K C)) :
    ls.store.epoch ≤ (ls.applyChanges changes).2.store.epoch := by
  rcases applyChanges_cases ls changes with heq | heq
  · rw [heq]
  · simp only [heq, (foldl_applyChange_epoch changes _).1, DualEpochMap.incrementEpoch_epoch]
    exact Int.le_add_one le_rfl

theorem applyChanges_inStep (hf : f.hasNoChanges = false)
    (hmsg : ∀ old new : MetadataStoreObject S St K C, (DualDiff.diff old new).hasNoChanges = false →
      f.overlaps (DualDiff.diff old new) = false → msg new = msg old)
    (h : ls.WellFormed) (hl : l ≤ ls.store.epoch)
    (hin : ls.store.fence ≤ l → DeltaSync.InStep (ls.store.view f MetadataStoreObject.key msg) l mirror)
    (changes : List (LSUpdate S St K C)) :
    (ls.applyChanges changes).2.store.fence ≤ l →
      DeltaSync.InStep ((ls.applyChanges changes).2.store.view f MetadataStoreObject.key msg) l mirror := by
  rcases applyChanges_cases ls changes with heq | heq <;> rw [heq]
  · exact hin
  · -- everything the loop writes is stamped one epoch after the reader's
    obtain ⟨-, hfence⟩ := foldl_applyChange_epoch changes (ls.store.incrementEpoch, SyncStatus.zero)
    intro hle
    simp only [hfence, DualEpochMap.incrementEpoch_fence] at hle
    exact (hin hle).of_frame (foldl_applyChange_frame changes (ls.store.incrementEpoch, SyncStatus.zero)
      h.stamped.incrementEpoch
      (by simpa using Int.lt_add_one_iff.mpr hl) hf hmsg)

theorem syncAll_inStep (h : ls.WellFormed) (hl : l ≤ ls.store.epoch)
    (incoming : List (MetadataStoreObject S St K C)) :
    (ls.syncAll incoming).2.store.fence ≤ l →
      DeltaSync.InStep ((ls.syncAll incoming).2.store.view f MetadataStoreObject.key msg) l mirror := by
  -- the fence is past the reader: it has nothing to be in step with until its next full sync
  intro hle
  rw [(h.syncAll incoming).2.2] at hle
  exact absurd (hl.trans_lt (Int.lt_add_one_iff.mpr le_rfl)) (not_lt.mpr hle)

end Reader

end LocalStore

namespace ChangeListener

variable {S St K C : Type}

/-- `ChangeListener::new`. -/
def new : ChangeListener := ⟨0⟩

/-- `ChangeListener::has_change`. -/
def hasChange (l : ChangeListener) (ls : LocalStore S St K C) : Bool := decide (l.lastChange < ls.currentChange)

/-- `ChangeListener::sync_changes_with_filter`: the changes since the listener's epoch, whose
epoch the listener keeps. -/
def syncChangesWithFilter (l : ChangeListener) (ls : LocalStore S St K C) (filter : ChangeFlag) :
    EpochChanges (MetadataStoreObject S St K C) × ChangeListener :=
  let changes := ls.store.changesSinceWithFilter l.lastChange filter
  (changes, ⟨changes.epoch⟩)

/-- The listener takes the store's own epoch. -/
theorem syncChangesWithFilter_epoch (l : ChangeListener) (ls : LocalStore S St K C) (f : ChangeFlag) :
    (l.syncChangesWithFilter ls f).1.epoch = ls.store.epoch := by
  simp only [syncChangesWithFilter, DualEpochMap.changesSinceWithFilter]
  split_ifs <;> rfl

end ChangeListener

/-! ### A listener and its mirror -/

section Watch

variable {S St K C : Type} [DecidableEq K]

/-- The mirror a listener keeps from what it is given: the list itself on a full sync;
otherwise every deleted key removed, then every update written. -/
def mirrorApply (mirror : K → Option (MetadataStoreObject S St K C))
    (changes : EpochChanges (MetadataStoreObject S St K C)) : K → Option (MetadataStoreObject S St K C) :=
  match changes.changes with
  | .syncAll all => DeltaSync.upsertAll (fun _ => none) (all.map fun o => (o.key, o))
  | .changes updates deletes =>
    DeltaSync.upsertAll (DeltaSync.removeAll mirror (deletes.map (·.key))) (updates.map fun o => (o.key, o))

/-- A store with one change listener and the mirror the listener keeps. -/
structure Watch (S St K C : Type) where
  store : LocalStore S St K C
  listener : ChangeListener
  mirror : K → Option (MetadataStoreObject S St K C)

/-- What happens to a watched store: either writer, or the listener taking the changes. -/
inductive StoreAction (S St K C : Type) where
  | syncAll (incoming : List (MetadataStoreObject S St K C))
  | applyChanges (changes : List (LSUpdate S St K C))
  | listen

namespace Watch

/-- A new store with a new listener and an empty mirror; a listener created later starts the
same way, so this also covers listeners that join a running store. -/
def init : Watch S St K C := ⟨LocalStore.default, ChangeListener.new, fun _ => none⟩

/-- The listener takes every change (`FULL_FILTER`) and applies it to its mirror. -/
def listen (w : Watch S St K C) : Watch S St K C :=
  let r := w.listener.syncChangesWithFilter w.store fullFilter
  { w with listener := r.2, mirror := mirrorApply w.mirror r.1 }

/-- The listener's mirror is in step with the store as of the listener's epoch whenever that
epoch is past the fence; the listener is never ahead of the store. -/
structure Synced (w : Watch S St K C) : Prop where
  store : w.store.WellFormed
  last_le : w.listener.lastChange ≤ w.store.store.epoch
  mirror : w.store.store.fence ≤ w.listener.lastChange →
    DeltaSync.InStep (w.store.store.view fullFilter MetadataStoreObject.key id)
      (w.listener.lastChange : WithBot Epoch) w.mirror

theorem Synced.init : (init : Watch S St K C).Synced where
  store := LocalStore.WellFormed.default
  last_le := le_rfl
  mirror _ := ⟨fun _ _ _ h => by simp [Watch.init, LocalStore.default, DualEpochMap.new] at h,
    fun _ _ hm => absurd rfl hm⟩

/-- The map as the listener sees it has the store's content. -/
theorem view_content_eq (ls : LocalStore S St K C) :
    (ls.store.view fullFilter MetadataStoreObject.key id).content = ls.content := by
  rw [LocalStore.view_content_eq_map]
  simp

/-- A full sync lists exactly the store's content. -/
theorem mirror_syncAll {ls : LocalStore S St K C} (h : ls.WellFormed) :
    DeltaSync.upsertAll (fun _ => none) (ls.store.cloneValues.map fun o => (o.key, o)) = ls.content := by
  simpa using LocalStore.cloneValues_upsertAll h id

/-- **A listener's mirror after it takes the changes is the store's content.** -/
theorem Synced.mirrorApply_eq {w : Watch S St K C} (hs : w.Synced) :
    mirrorApply w.mirror (w.listener.syncChangesWithFilter w.store fullFilter).1 = w.store.content := by
  have hf : fullFilter.hasNoChanges = false := rfl
  have hw := hs.store.stamped
  simp only [ChangeListener.syncChangesWithFilter, DualEpochMap.changesSinceWithFilter]
  split_ifs with hfence hat
  · -- before the fence: everything
    exact mirror_syncAll hs.store
  · -- at the store's epoch: nothing, and the mirror already holds everything
    have hin := hs.mirror (not_lt.mp hfence)
    rw [hat] at hin
    rw [← view_content_eq]
    exact hw.eq_content_of_inStep hf hin
  · -- past the fence: the delta since the listener's epoch
    rw [← view_content_eq]
    exact (hs.mirror (not_lt.mp hfence)).applyDelta_eq (hw.ordered hf)
      (hw.changesSince_isDelta w.listener.lastChange)

theorem Synced.listen {w : Watch S St K C} (hs : w.Synced) : w.listen.Synced where
  store := hs.store
  last_le := (ChangeListener.syncChangesWithFilter_epoch _ _ _).le
  mirror _ := by
    simp only [Watch.listen]
    rw [hs.mirrorApply_eq, ← view_content_eq]
    exact DeltaSync.InStep.of_content _

variable [MetadataItem C] [DecidableEq S] [DecidableEq St] [DecidableEq C]

/-- A step of a watched store. -/
def next (w : Watch S St K C) : StoreAction S St K C → Option (Watch S St K C)
  | .syncAll incoming => some { w with store := (w.store.syncAll incoming).2 }
  | .applyChanges changes => some { w with store := (w.store.applyChanges changes).2 }
  | .listen => some w.listen

theorem Synced.syncAll {w : Watch S St K C} (hs : w.Synced) (incoming : List (MetadataStoreObject S St K C)) :
    Synced { w with store := (w.store.syncAll incoming).2 } where
  store := (hs.store.syncAll incoming).1
  last_le := by
    rw [(hs.store.syncAll incoming).2.1]
    exact hs.last_le.trans (Int.le_add_one le_rfl)
  mirror := LocalStore.syncAll_inStep hs.store hs.last_le incoming

theorem Synced.applyChanges {w : Watch S St K C} (hs : w.Synced) (changes : List (LSUpdate S St K C)) :
    Synced { w with store := (w.store.applyChanges changes).2 } where
  store := hs.store.applyChanges changes
  last_le := hs.last_le.trans (LocalStore.le_applyChanges_epoch _ changes)
  -- the full filter sees every change, so no change is hidden from the listener
  mirror := LocalStore.applyChanges_inStep rfl
    (fun _ _ hd ho => absurd (ChangeFlag.all_overlaps hd) (by simp at ho ⊢; exact ho))
    hs.store hs.last_le hs.mirror changes

/-- Every action keeps the listener in step. -/
theorem Synced.next {w w' : Watch S St K C} {a : StoreAction S St K C} (hs : w.Synced)
    (h : w.next a = some w') : w'.Synced := by
  cases a with
  | syncAll incoming =>
    cases h
    exact hs.syncAll incoming
  | applyChanges changes =>
    cases h
    exact hs.applyChanges changes
  | listen =>
    cases h
    exact hs.listen

theorem Synced.reachable {w : Watch S St K C} (h : Trace.Reachable Watch.next Watch.init w) :
    w.Synced :=
  Trace.Reachable.invariant Synced.init (fun _ _ _ hs hn => hs.next hn) h

end Watch

variable [MetadataItem C] [DecidableEq S] [DecidableEq St] [DecidableEq C]

end Watch


end Fluvio.Metadata
