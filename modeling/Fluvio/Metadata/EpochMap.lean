import Fluvio.Lib.DeltaSync
import Mathlib

/-!
The dual epoch map under every metadata store (`fluvio-stream-model/src/epoch`): a map whose
entries carry the epochs of their last spec, status and meta change, a history of deleted
entries, a global epoch, and a fence below which the history is lost.

* `DualEpochMap.update`, `remove`, `markFence`, `changesSinceWithFilter` — the source's methods.
* `DualEpochMap.WellStamped` — what every store keeps: no epoch is ahead of the map's, entries
  sit under their own key, and a deleted entry is stamped whole and is no newer than an entry
  of its key.
* `DualEpochMap.view` — the map as a `DeltaSync.Versioned` source for a reader with a filter.
  A write at a newer epoch than the reader's is a `DeltaSync.Frame` of it (`update_frame`,
  `remove_frame`), and `changesSinceWithFilter` returns its delta (`changesSince_isDelta`).
-/

namespace Fluvio.Metadata

/-- `Epoch`, an `i64` in the source. -/
abbrev Epoch := Int

/-- The parts of an object that changed, or that a reader looks at. -/
structure ChangeFlag where
  spec : Bool
  status : Bool
  meta' : Bool
  deriving DecidableEq, Repr

namespace ChangeFlag

/-- `ChangeFlag::all`. -/
def all : ChangeFlag := ⟨true, true, true⟩

/-- `ChangeFlag::no_change`. -/
def noChange : ChangeFlag := ⟨false, false, false⟩

/-- `ChangeFlag::has_no_changes`. -/
def hasNoChanges (f : ChangeFlag) : Bool := !f.spec && !f.status && !f.meta'

/-- Some part that `d` flags is one that the filter `f` looks at. -/
def overlaps (f d : ChangeFlag) : Bool :=
  f.spec && d.spec || f.status && d.status || f.meta' && d.meta'

/-- A filter that looks at every part sees every change. -/
theorem all_overlaps {d : ChangeFlag} (h : d.hasNoChanges = false) : all.overlaps d = true := by
  obtain ⟨spec, status, meta'⟩ := d
  revert h
  cases spec <;> cases status <;> cases meta' <;> decide

end ChangeFlag

/-- `FULL_FILTER`. -/
def fullFilter : ChangeFlag := ChangeFlag.all

/-- `SPEC_FILTER`. -/
def specFilter : ChangeFlag := ⟨true, false, false⟩

/-- `DualDiff`: which parts of an object a new value changes. -/
class DualDiff (V : Type) where
  diff : V → V → ChangeFlag

/-- `DualEpochCounter`: a value with the epochs of its last spec, status and meta change. -/
structure DualEpochCounter (V : Type) where
  specEpoch : Epoch
  statusEpoch : Epoch
  metaEpoch : Epoch
  inner : V
  deriving DecidableEq, Repr

namespace DualEpochCounter

variable {V : Type}

def new (inner : V) : DualEpochCounter V := ⟨0, 0, 0, inner⟩

def setEpoch (c : DualEpochCounter V) (epoch : Epoch) : DualEpochCounter V :=
  { c with specEpoch := epoch, statusEpoch := epoch, metaEpoch := epoch }

def copyEpoch (c old : DualEpochCounter V) : DualEpochCounter V :=
  { c with specEpoch := old.specEpoch, statusEpoch := old.statusEpoch, metaEpoch := old.metaEpoch }

def setSpecEpoch (c : DualEpochCounter V) (epoch : Epoch) : DualEpochCounter V :=
  { c with specEpoch := epoch }

def setStatusEpoch (c : DualEpochCounter V) (epoch : Epoch) : DualEpochCounter V :=
  { c with statusEpoch := epoch }

def setMetaEpoch (c : DualEpochCounter V) (epoch : Epoch) : DualEpochCounter V :=
  { c with metaEpoch := epoch }

/-- The counter `DualEpochMap::update` stores over `existing` when `diff` has changes: the new
value with the existing epochs, and `epoch` on each part that `diff` flags. -/
def restamp (existing : DualEpochCounter V) (newValue : V) (diff : ChangeFlag) (epoch : Epoch) :
    DualEpochCounter V :=
  let c := (new newValue).copyEpoch existing
  let c := if diff.spec then c.setSpecEpoch epoch else c
  let c := if diff.status then c.setStatusEpoch epoch else c
  if diff.meta' then c.setMetaEpoch epoch else c

variable {c existing : DualEpochCounter V} {v : V} {d : ChangeFlag} {e : Epoch}

@[simp] theorem setEpoch_specEpoch : (c.setEpoch e).specEpoch = e := rfl
@[simp] theorem setEpoch_statusEpoch : (c.setEpoch e).statusEpoch = e := rfl
@[simp] theorem setEpoch_metaEpoch : (c.setEpoch e).metaEpoch = e := rfl
@[simp] theorem setEpoch_inner : (c.setEpoch e).inner = c.inner := rfl
@[simp] theorem new_inner : (new v).inner = v := rfl

@[simp] theorem restamp_specEpoch :
    (existing.restamp v d e).specEpoch = if d.spec then e else existing.specEpoch := by
  unfold restamp
  cases d.spec <;> cases d.status <;> cases d.meta' <;> rfl

@[simp] theorem restamp_statusEpoch :
    (existing.restamp v d e).statusEpoch = if d.status then e else existing.statusEpoch := by
  unfold restamp
  cases d.spec <;> cases d.status <;> cases d.meta' <;> rfl

@[simp] theorem restamp_metaEpoch :
    (existing.restamp v d e).metaEpoch = if d.meta' then e else existing.metaEpoch := by
  unfold restamp
  cases d.spec <;> cases d.status <;> cases d.meta' <;> rfl

@[simp] theorem restamp_inner : (existing.restamp v d e).inner = v := by
  unfold restamp
  cases d.spec <;> cases d.status <;> cases d.meta' <;> rfl

/-- The test of `changes_since_with_filter`: a part that `filter` looks at changed after
`epoch`. -/
def changedSince (c : DualEpochCounter V) (filter : ChangeFlag) (epoch : Epoch) : Bool :=
  filter.spec && decide (epoch < c.specEpoch) || filter.status && decide (epoch < c.statusEpoch) ||
    filter.meta' && decide (epoch < c.metaEpoch)

/-- Every epoch of `c` is at most `e`. -/
def EpochsLe (c : DualEpochCounter V) (e : Epoch) : Prop :=
  c.specEpoch ≤ e ∧ c.statusEpoch ≤ e ∧ c.metaEpoch ≤ e

theorem EpochsLe.mono {e' : Epoch} (h : c.EpochsLe e) (he : e ≤ e') : c.EpochsLe e' :=
  ⟨h.1.trans he, h.2.1.trans he, h.2.2.trans he⟩

/-- Every epoch of `c` is at least `e`. -/
def EpochsGe (c : DualEpochCounter V) (e : Epoch) : Prop :=
  e ≤ c.specEpoch ∧ e ≤ c.statusEpoch ∧ e ≤ c.metaEpoch

/-- An entry restamped at the current epoch keeps every epoch at most the current one. -/
theorem EpochsLe.restamp (h : existing.EpochsLe e) : (existing.restamp v d e).EpochsLe e := by
  obtain ⟨h1, h2, h3⟩ := h
  refine ⟨?_, ?_, ?_⟩ <;> simp only [restamp_specEpoch, restamp_statusEpoch, restamp_metaEpoch] <;>
    split <;> first | exact le_rfl | assumption

/-- ... and every epoch at least a bound of the old entry's, when the bound is at most the
current one. -/
theorem EpochsGe.restamp {e' : Epoch} (h : existing.EpochsGe e') (he : e' ≤ e) :
    (existing.restamp v d e).EpochsGe e' := by
  obtain ⟨h1, h2, h3⟩ := h
  refine ⟨?_, ?_, ?_⟩ <;> simp only [restamp_specEpoch, restamp_statusEpoch, restamp_metaEpoch] <;>
    split <;> assumption

/-- The epoch of the last change of a part that `filter` looks at; `⊥` when it looks at
none. -/
def stamp (c : DualEpochCounter V) (filter : ChangeFlag) : WithBot Epoch :=
  max (max (if filter.spec then (c.specEpoch : WithBot Epoch) else ⊥)
    (if filter.status then (c.statusEpoch : WithBot Epoch) else ⊥))
    (if filter.meta' then (c.metaEpoch : WithBot Epoch) else ⊥)

private theorem lt_ite_coe {b : Bool} {e x : Epoch} :
    ((e : WithBot Epoch) < if b then (x : WithBot Epoch) else ⊥) ↔ b = true ∧ e < x := by
  cases b <;> simp

private theorem ite_le_coe {b : Bool} {e x : Epoch} (h : x ≤ e) :
    (if b then (x : WithBot Epoch) else ⊥) ≤ e := by
  cases b <;> simp [h]

/-- The stamp is after `e` exactly when the source's test finds a change after `e`. -/
theorem lt_stamp_iff {f : ChangeFlag} : (e : WithBot Epoch) < c.stamp f ↔ c.changedSince f e = true := by
  simp [stamp, changedSince, lt_ite_coe, or_assoc]

theorem stamp_le {f : ChangeFlag} (h : c.EpochsLe e) : c.stamp f ≤ e :=
  max_le (max_le (ite_le_coe h.1) (ite_le_coe h.2.1)) (ite_le_coe h.2.2)

theorem le_stamp {f : ChangeFlag} (hf : f.hasNoChanges = false) (h : c.EpochsGe e) :
    (e : WithBot Epoch) ≤ c.stamp f := by
  simp only [ChangeFlag.hasNoChanges, Bool.and_eq_false_iff, Bool.not_eq_false'] at hf
  rcases hf with (hs | hs) | hm
  · exact le_max_of_le_left (le_max_of_le_left (by simp [hs, h.1]))
  · exact le_max_of_le_left (le_max_of_le_right (by simp [hs, h.2.1]))
  · exact le_max_of_le_right (by simp [hm, h.2.2])

/-- An entry stamped whole has its epoch as its stamp, for a filter that looks at something. -/
theorem stamp_setEpoch {f : ChangeFlag} (hf : f.hasNoChanges = false) : (c.setEpoch e).stamp f = e :=
  le_antisymm (stamp_le ⟨le_rfl, le_rfl, le_rfl⟩) (le_stamp hf ⟨le_rfl, le_rfl, le_rfl⟩)

private theorem ite_restamp_of_not_both {b b' : Bool} {x : Epoch} (h : (b && b') = false) :
    (if b then ((if b' then e else x : Epoch) : WithBot Epoch) else ⊥) =
      if b then (x : WithBot Epoch) else ⊥ := by
  cases b <;> cases b' <;> simp_all

/-- A change to parts the filter does not look at leaves the stamp as it was. -/
theorem stamp_restamp_of_not_overlaps {f : ChangeFlag} (ho : f.overlaps d = false) :
    (existing.restamp v d e).stamp f = existing.stamp f := by
  simp only [ChangeFlag.overlaps, Bool.or_eq_false_iff] at ho
  simp only [stamp, restamp_specEpoch, restamp_statusEpoch, restamp_metaEpoch,
    ite_restamp_of_not_both ho.1.1, ite_restamp_of_not_both ho.1.2, ite_restamp_of_not_both ho.2]

/-- A change to a part the filter looks at stamps the current epoch. -/
theorem le_stamp_restamp {f : ChangeFlag} (ho : f.overlaps d = true) :
    (e : WithBot Epoch) ≤ (existing.restamp v d e).stamp f := by
  simp only [ChangeFlag.overlaps, Bool.or_eq_true, Bool.and_eq_true] at ho
  rcases ho with (⟨hf, hd⟩ | ⟨hf, hd⟩) | ⟨hf, hd⟩
  · exact le_max_of_le_left (le_max_of_le_left (by simp [hf, hd]))
  · exact le_max_of_le_left (le_max_of_le_right (by simp [hf, hd]))
  · exact le_max_of_le_right (by simp [hf, hd])

end DualEpochCounter

/-- `EpochDeltaChanges`: everything, or what changed and what was deleted. -/
inductive EpochDeltaChanges (V : Type) where
  | syncAll (all : List V)
  | changes (updates deletes : List V)
  deriving DecidableEq, Repr

/-- `EpochDeltaChanges::empty`. -/
def EpochDeltaChanges.empty {V : Type} : EpochDeltaChanges V := .changes [] []

/-- `EpochChanges`: the changes a reader is given, with the epoch they bring it to. -/
structure EpochChanges (V : Type) where
  epoch : Epoch
  changes : EpochDeltaChanges V
  deriving DecidableEq, Repr

namespace EpochChanges

variable {V : Type}

/-- `EpochChanges::parts`: the updates (everything, on a full sync) and the deletes. -/
def parts (c : EpochChanges V) : List V × List V :=
  match c.changes with
  | .syncAll all => (all, [])
  | .changes updates deletes => (updates, deletes)

/-- `EpochChanges::is_empty`. -/
def isEmpty (c : EpochChanges V) : Bool :=
  match c.changes with
  | .syncAll all => all.isEmpty
  | .changes updates deletes => updates.isEmpty && deletes.isEmpty

/-- `EpochChanges::is_sync_all`. -/
def isSyncAll (c : EpochChanges V) : Bool :=
  match c.changes with
  | .syncAll _ => true
  | .changes _ _ => false

end EpochChanges

/-- `DualEpochMap`: the entries with their epochs, the deleted history, the epoch and the
fence. -/
structure DualEpochMap (K V : Type) where
  epoch : Epoch
  fence : Epoch
  values : AList (fun _ : K => DualEpochCounter V)
  deleted : List (DualEpochCounter V)

namespace DualEpochMap

variable {K V W : Type}

/-- `DualEpochMap::new`. -/
def new : DualEpochMap K V := ⟨0, 0, ∅, []⟩

def incrementEpoch (m : DualEpochMap K V) : DualEpochMap K V := { m with epoch := m.epoch + 1 }

def decrementEpoch (m : DualEpochMap K V) : DualEpochMap K V := { m with epoch := m.epoch - 1 }

/-- `DualEpochMap::mark_fence`: the history is dropped and the fence moves to the epoch. -/
def markFence (m : DualEpochMap K V) : DualEpochMap K V := { m with deleted := [], fence := m.epoch }

/-- `DualEpochMap::clone_keys`. -/
def cloneKeys (m : DualEpochMap K V) : List K := m.values.keys

/-- `DualEpochMap::clone_values`. -/
def cloneValues (m : DualEpochMap K V) : List V := m.values.entries.map fun e => e.2.inner

/-- The `filter_map` of `changes_since_with_filter`: the values changed after `epoch` in a part
that `filter` looks at. -/
def sinceWithFilter (filter : ChangeFlag) (epoch : Epoch) (vs : List (DualEpochCounter V)) : List V :=
  vs.filterMap fun v => if v.changedSince filter epoch then some v.inner else none

/-- `DualEpochMap::changes_since_with_filter`: everything for a reader from before the fence,
nothing for a reader at the epoch, otherwise the entries and deletions after the reader's epoch;
always with the current epoch. -/
def changesSinceWithFilter (m : DualEpochMap K V) (epoch : Epoch) (filter : ChangeFlag) :
    EpochChanges V :=
  if epoch < m.fence then ⟨m.epoch, .syncAll m.cloneValues⟩
  else if epoch = m.epoch then ⟨m.epoch, .empty⟩
  else ⟨m.epoch, .changes (sinceWithFilter filter epoch (m.values.entries.map (·.2)))
    (sinceWithFilter filter epoch m.deleted)⟩

@[simp] theorem incrementEpoch_epoch (m : DualEpochMap K V) : m.incrementEpoch.epoch = m.epoch + 1 := rfl
@[simp] theorem incrementEpoch_fence (m : DualEpochMap K V) : m.incrementEpoch.fence = m.fence := rfl
@[simp] theorem incrementEpoch_values (m : DualEpochMap K V) : m.incrementEpoch.values = m.values := rfl
@[simp] theorem incrementEpoch_deleted (m : DualEpochMap K V) : m.incrementEpoch.deleted = m.deleted := rfl
@[simp] theorem markFence_epoch (m : DualEpochMap K V) : m.markFence.epoch = m.epoch := rfl
@[simp] theorem markFence_fence (m : DualEpochMap K V) : m.markFence.fence = m.epoch := rfl
@[simp] theorem markFence_values (m : DualEpochMap K V) : m.markFence.values = m.values := rfl
@[simp] theorem markFence_deleted (m : DualEpochMap K V) : m.markFence.deleted = [] := rfl

theorem decrementEpoch_incrementEpoch (m : DualEpochMap K V) : m.incrementEpoch.decrementEpoch = m := by
  simp [decrementEpoch, incrementEpoch]

variable [DecidableEq K]

/-- `DualEpochMap::update`: the diff with the existing value (`none` for a new key), and the map
with the new value stamped at the current epoch on the parts that changed. -/
def update [DualDiff V] (m : DualEpochMap K V) (key : K) (newValue : V) :
    Option ChangeFlag × DualEpochMap K V :=
  match m.values.lookup key with
  | some existing =>
    let diff := DualDiff.diff existing.inner newValue
    if diff.hasNoChanges then (some diff, m)
    else (some diff, { m with values := m.values.insert key (existing.restamp newValue diff m.epoch) })
  | none =>
    (none, { m with values := m.values.insert key ((DualEpochCounter.new newValue).setEpoch m.epoch) })

/-- `DualEpochMap::remove`: the removed entry stamped at the current epoch, which also goes to
the deleted history. -/
def remove (m : DualEpochMap K V) (k : K) : Option (DualEpochCounter V) × DualEpochMap K V :=
  match m.values.lookup k with
  | some old =>
    (some (old.setEpoch m.epoch),
      { m with values := m.values.erase k, deleted := m.deleted ++ [old.setEpoch m.epoch] })
  | none => (none, m)

/-! ### What `update` and `remove` do -/

section Ops

variable {m : DualEpochMap K V} {k : K} {c : DualEpochCounter V}

theorem remove_of_lookup_some (h : m.values.lookup k = some c) :
    m.remove k = (some (c.setEpoch m.epoch),
      { m with values := m.values.erase k, deleted := m.deleted ++ [c.setEpoch m.epoch] }) := by
  simp [remove, h]

theorem remove_of_lookup_none (h : m.values.lookup k = none) : m.remove k = (none, m) := by
  simp [remove, h]

@[simp] theorem remove_epoch : (m.remove k).2.epoch = m.epoch := by
  unfold remove
  split <;> rfl

@[simp] theorem remove_fence : (m.remove k).2.fence = m.fence := by
  unfold remove
  split <;> rfl

theorem lookup_remove (k' : K) : (m.remove k).2.values.lookup k' =
    if k' = k then none else m.values.lookup k' := by
  rcases h : m.values.lookup k with _ | c
  · rw [remove_of_lookup_none h]
    split_ifs with hk
    · subst hk
      exact h
    · rfl
  · rw [remove_of_lookup_some h]
    split_ifs with hk
    · subst hk
      exact AList.lookup_erase _ _
    · exact AList.lookup_erase_ne hk

theorem remove_deleted : (m.remove k).2.deleted =
    match m.values.lookup k with
    | some c => m.deleted ++ [c.setEpoch m.epoch]
    | none => m.deleted := by
  rcases h : m.values.lookup k with _ | c
  · rw [remove_of_lookup_none h]
  · rw [remove_of_lookup_some h]

variable [DualDiff V] {v : V}

theorem update_of_lookup_none (h : m.values.lookup k = none) :
    m.update k v = (none, { m with values := m.values.insert k ((DualEpochCounter.new v).setEpoch m.epoch) }) := by
  simp [update, h]

theorem update_of_noChange (h : m.values.lookup k = some c)
    (hd : (DualDiff.diff c.inner v).hasNoChanges = true) : m.update k v = (some (DualDiff.diff c.inner v), m) := by
  simp [update, h, hd]

theorem update_of_change (h : m.values.lookup k = some c)
    (hd : (DualDiff.diff c.inner v).hasNoChanges = false) :
    m.update k v = (some (DualDiff.diff c.inner v),
      { m with values := m.values.insert k (c.restamp v (DualDiff.diff c.inner v) m.epoch) }) := by
  simp [update, h, hd]

/-- An update leaves the map as it is or writes one entry under its key. -/
theorem update_cases : (m.update k v).2 = m ∨
    ∃ c', (m.update k v).2 = { m with values := m.values.insert k c' } := by
  rcases h : m.values.lookup k with _ | c
  · exact .inr ⟨_, by rw [update_of_lookup_none h]⟩
  · cases hd : (DualDiff.diff c.inner v).hasNoChanges
    · exact .inr ⟨_, by rw [update_of_change h hd]⟩
    · exact .inl (by rw [update_of_noChange h hd])

@[simp] theorem update_epoch : (m.update k v).2.epoch = m.epoch := by
  rcases update_cases (m := m) (k := k) (v := v) with h | ⟨c', h⟩ <;> rw [h]

@[simp] theorem update_fence : (m.update k v).2.fence = m.fence := by
  rcases update_cases (m := m) (k := k) (v := v) with h | ⟨c', h⟩ <;> rw [h]

@[simp] theorem update_deleted : (m.update k v).2.deleted = m.deleted := by
  rcases update_cases (m := m) (k := k) (v := v) with h | ⟨c', h⟩ <;> rw [h]

/-- An update that reports a diff flagging nothing leaves the map as it is. -/
theorem update_eq_self {d : ChangeFlag} (h : (m.update k v).1 = some d) (hd : d.hasNoChanges = true) :
    (m.update k v).2 = m := by
  rcases h0 : m.values.lookup k with _ | c
  · rw [update_of_lookup_none h0] at h
    cases h
  · cases hc : (DualDiff.diff c.inner v).hasNoChanges
    · rw [update_of_change h0 hc, Option.some.injEq] at h
      rw [← h, hc] at hd
      cases hd
    · rw [update_of_noChange h0 hc]

theorem lookup_update_ne {k' : K} (hk : k' ≠ k) :
    (m.update k v).2.values.lookup k' = m.values.lookup k' := by
  rcases update_cases (m := m) (k := k) (v := v) with h | ⟨c', h⟩
  · rw [h]
  · rw [h, AList.lookup_insert_ne hk]

/-- An entry after an update is the entry before it, or sits under the updated key and is the
old entry restamped with the new value, or the new value stamped whole. -/
theorem lookup_update_some {k' : K} {c' : DualEpochCounter V}
    (h : (m.update k v).2.values.lookup k' = some c') :
    m.values.lookup k' = some c' ∨
      k' = k ∧ ((∃ c, m.values.lookup k = some c ∧ c' = c.restamp v (DualDiff.diff c.inner v) m.epoch) ∨
        (m.values.lookup k = none ∧ c' = (DualEpochCounter.new v).setEpoch m.epoch)) := by
  by_cases hk : k' = k
  · subst hk
    rcases h0 : m.values.lookup k' with _ | c
    · rw [update_of_lookup_none h0, AList.lookup_insert, Option.some.injEq] at h
      exact .inr ⟨rfl, .inr ⟨rfl, h.symm⟩⟩
    · cases hd : (DualDiff.diff c.inner v).hasNoChanges
      · rw [update_of_change h0 hd, AList.lookup_insert, Option.some.injEq] at h
        exact .inr ⟨rfl, .inl ⟨c, rfl, h.symm⟩⟩
      · rw [update_of_noChange h0 hd] at h
        exact .inl (h0.symm.trans h)
  · rw [lookup_update_ne hk] at h
    exact .inl h

end Ops

/-! ### The invariant of every store -/

/-- What every store of the system keeps: the fence and every epoch are at most the map's
epoch, each entry sits under its own key, and each deleted entry is stamped whole at an epoch
no later than any epoch of the entry its key holds now. -/
structure WellStamped (key : V → K) (m : DualEpochMap K V) : Prop where
  fence_le : m.fence ≤ m.epoch
  keyed : ∀ k c, m.values.lookup k = some c → key c.inner = k
  values_le : ∀ k c, m.values.lookup k = some c → c.EpochsLe m.epoch
  deleted_le : ∀ d ∈ m.deleted, ∃ e ≤ m.epoch, d.EpochsLe e ∧ d.EpochsGe e ∧
    ∀ c, m.values.lookup (key d.inner) = some c → c.EpochsGe e

section WellStamped

variable {key : V → K} {m : DualEpochMap K V}

theorem WellStamped.new : WellStamped key (new : DualEpochMap K V) where
  fence_le := le_rfl
  keyed _ _ h := by simp [DualEpochMap.new] at h
  values_le _ _ h := by simp [DualEpochMap.new] at h
  deleted_le _ h := by simp [DualEpochMap.new] at h

theorem WellStamped.incrementEpoch (hw : WellStamped key m) : WellStamped key m.incrementEpoch where
  fence_le := by simpa using hw.fence_le.trans (Int.le_add_one le_rfl)
  keyed := hw.keyed
  values_le k c h := (hw.values_le k c h).mono (Int.le_add_one le_rfl)
  deleted_le d hd := by
    obtain ⟨e, he, hle, hge, hc⟩ := hw.deleted_le d hd
    exact ⟨e, he.trans (Int.le_add_one le_rfl), hle, hge, hc⟩

theorem WellStamped.markFence (hw : WellStamped key m) : WellStamped key m.markFence where
  fence_le := le_rfl
  keyed := hw.keyed
  values_le := hw.values_le
  deleted_le _ h := by simp at h

theorem WellStamped.remove {k : K} (hw : WellStamped key m) : WellStamped key (m.remove k).2 where
  fence_le := by simpa using hw.fence_le
  keyed k' c h := by
    rw [lookup_remove] at h
    split_ifs at h
    exact hw.keyed k' c h
  values_le k' c h := by
    rw [lookup_remove] at h
    split_ifs at h
    simpa using hw.values_le k' c h
  deleted_le d hd := by
    -- an older deleted entry keeps its stamp, and its key can only have lost its entry
    have older : d ∈ m.deleted → ∃ e ≤ (m.remove k).2.epoch, d.EpochsLe e ∧ d.EpochsGe e ∧
        ∀ c, (m.remove k).2.values.lookup (key d.inner) = some c → c.EpochsGe e := fun hd => by
      obtain ⟨e, he, hle, hge, hc⟩ := hw.deleted_le d hd
      refine ⟨e, by simpa using he, hle, hge, fun c h => ?_⟩
      rw [lookup_remove] at h
      split_ifs at h
      exact hc c h
    rw [remove_deleted] at hd
    split at hd
    · rename_i c hc
      rcases List.mem_append.mp hd with hd | hd
      · exact older hd
      · -- the entry just deleted is stamped whole at the current epoch, and its key is empty
        rw [List.mem_singleton] at hd
        subst hd
        refine ⟨m.epoch, by simp, ⟨le_rfl, le_rfl, le_rfl⟩, ⟨le_rfl, le_rfl, le_rfl⟩, fun c' h => ?_⟩
        rw [lookup_remove, DualEpochCounter.setEpoch_inner, hw.keyed k c hc, if_pos rfl] at h
        cases h
    · exact older hd

variable [DualDiff V]

theorem WellStamped.update {k : K} {v : V} (hw : WellStamped key m) (hk : key v = k) :
    WellStamped key (m.update k v).2 where
  fence_le := by simpa using hw.fence_le
  keyed k' c h := by
    rcases lookup_update_some h with h | ⟨rfl, ⟨c0, -, rfl⟩ | ⟨-, rfl⟩⟩
    · exact hw.keyed k' c h
    · simpa using hk
    · simpa using hk
  values_le k' c h := by
    rw [update_epoch]
    rcases lookup_update_some h with h | ⟨rfl, ⟨c0, h0, rfl⟩ | ⟨-, rfl⟩⟩
    · exact hw.values_le k' c h
    · exact (hw.values_le _ _ h0).restamp
    · exact ⟨le_rfl, le_rfl, le_rfl⟩
  deleted_le d hd := by
    rw [update_deleted] at hd
    obtain ⟨e, he, hle, hge, hc⟩ := hw.deleted_le d hd
    refine ⟨e, by simpa using he, hle, hge, fun c h => ?_⟩
    -- the entry now under the deleted entry's key has epochs from the old one or the current one
    rcases lookup_update_some h with h | ⟨hkey, ⟨c0, h0, rfl⟩ | ⟨-, rfl⟩⟩
    · exact hc c h
    · exact (hc c0 (hkey ▸ h0)).restamp he
    · exact ⟨he, he, he⟩

end WellStamped

/-! ### A property of every value held or deleted -/

/-- Every value the map holds, and every deleted value it remembers, satisfies `P`. -/
structure AllInner (P : V → Prop) (m : DualEpochMap K V) : Prop where
  values : ∀ k c, m.values.lookup k = some c → P c.inner
  deleted : ∀ d ∈ m.deleted, P d.inner

section AllInner

variable {P : V → Prop} {m : DualEpochMap K V}

theorem AllInner.new : AllInner P (new : DualEpochMap K V) where
  values _ _ h := by simp [DualEpochMap.new] at h
  deleted _ h := by simp [DualEpochMap.new] at h

theorem AllInner.incrementEpoch (h : AllInner P m) : AllInner P m.incrementEpoch :=
  ⟨h.values, h.deleted⟩

theorem AllInner.markFence (h : AllInner P m) : AllInner P m.markFence :=
  ⟨h.values, fun _ hd => by simp at hd⟩

theorem AllInner.remove (h : AllInner P m) (k : K) : AllInner P (m.remove k).2 where
  values k' c hc := by
    rw [lookup_remove] at hc
    split_ifs at hc
    exact h.values k' c hc
  deleted d hd := by
    rw [remove_deleted] at hd
    split at hd
    · rename_i c hc
      rcases List.mem_append.mp hd with hd | hd
      · exact h.deleted d hd
      · rw [List.mem_singleton] at hd
        subst hd
        exact h.values k c hc
    · exact h.deleted d hd

theorem AllInner.update [DualDiff V] (h : AllInner P m) {k : K} {v : V} (hv : P v) :
    AllInner P (m.update k v).2 where
  values k' c hc := by
    rcases lookup_update_some hc with hc | ⟨-, ⟨c0, -, rfl⟩ | ⟨-, rfl⟩⟩
    · exact h.values k' c hc
    · simpa using hv
    · simpa using hv
  deleted d hd := h.deleted d (by simpa using hd)

end AllInner

/-! ### The map as a reader sees it -/

section View

variable {key : V → K} {msg : V → W} {f : ChangeFlag} {m : DualEpochMap K V}

/-- The map as a reader with filter `f` sees it: under each key the message `msg` makes of the
entry, stamped with the epoch of its last change that the filter looks at; and a tombstone for
each deleted entry. -/
def view (m : DualEpochMap K V) (f : ChangeFlag) (key : V → K) (msg : V → W) :
    DeltaSync.Versioned K W (WithBot Epoch) where
  current k := (m.values.lookup k).map fun c => (msg c.inner, c.stamp f)
  tombstones := m.deleted.map fun d => (key d.inner, d.stamp f)

@[simp] theorem view_current (k : K) :
    (m.view f key msg).current k = (m.values.lookup k).map fun c => (msg c.inner, c.stamp f) := rfl

@[simp] theorem view_tombstones :
    (m.view f key msg).tombstones = m.deleted.map fun d => (key d.inner, d.stamp f) := rfl

theorem view_content (k : K) :
    (m.view f key msg).content k = (m.values.lookup k).map fun c => msg c.inner := by
  simp [DeltaSync.Versioned.content, Option.map_map, Function.comp_def]

@[simp] theorem view_incrementEpoch : m.incrementEpoch.view f key msg = m.view f key msg := rfl

theorem mem_values_iff {c : DualEpochCounter V} :
    c ∈ m.values.entries.map (·.2) ↔ ∃ k, m.values.lookup k = some c := by
  simp only [List.mem_map]
  constructor
  · rintro ⟨⟨k, c⟩, h, rfl⟩
    exact ⟨k, AList.mem_lookup_iff.mpr h⟩
  · rintro ⟨k, h⟩
    exact ⟨⟨k, c⟩, AList.mem_lookup_iff.mp h, rfl⟩

theorem mem_sinceWithFilter {l : Epoch} {vs : List (DualEpochCounter V)} {v : V} :
    v ∈ sinceWithFilter f l vs ↔ ∃ c ∈ vs, c.changedSince f l = true ∧ c.inner = v := by
  simp only [sinceWithFilter, List.mem_filterMap, Option.ite_none_right_eq_some, Option.some.injEq]

/-- Every value a reader is given, in a full list or a delta, is one the map holds or remembers
deleting. -/
theorem AllInner.mem_cloneValues {P : V → Prop} (h : m.AllInner P) {v : V} (hv : v ∈ m.cloneValues) :
    P v := by
  obtain ⟨⟨k, c⟩, he, rfl⟩ := List.mem_map.mp hv
  exact h.values k c (AList.mem_lookup_iff.mpr he)

theorem AllInner.mem_since_values {P : V → Prop} (h : m.AllInner P) {l : Epoch} {v : V}
    (hv : v ∈ sinceWithFilter f l (m.values.entries.map (·.2))) : P v := by
  obtain ⟨c, hc, -, rfl⟩ := mem_sinceWithFilter.mp hv
  obtain ⟨k, hk⟩ := mem_values_iff.mp hc
  exact h.values k c hk

theorem AllInner.mem_since_deleted {P : V → Prop} (h : m.AllInner P) {l : Epoch} {v : V}
    (hv : v ∈ sinceWithFilter f l m.deleted) : P v := by
  obtain ⟨c, hc, -, rfl⟩ := mem_sinceWithFilter.mp hv
  exact h.deleted c hc

/-- A deleted entry is no newer than the entry its key holds now. -/
theorem WellStamped.ordered (hw : WellStamped key m) (hf : f.hasNoChanges = false) :
    (m.view f key msg).Ordered := by
  intro k w t t' hk ht'
  simp only [view_current, Option.map_eq_some_iff, Prod.mk.injEq] at hk
  simp only [view_tombstones, List.mem_map, Prod.mk.injEq] at ht'
  obtain ⟨c, hc, -, rfl⟩ := hk
  obtain ⟨d, hd, hdk, rfl⟩ := ht'
  obtain ⟨e, -, hle, -, hge⟩ := hw.deleted_le d hd
  calc d.stamp f ≤ e := DualEpochCounter.stamp_le hle
    _ ≤ c.stamp f := DualEpochCounter.le_stamp hf (hge c (hdk ▸ hc))

/-- **`changes_since_with_filter` returns the delta.** The values it lists are the entries
stamped after the reader's epoch, and the deleted values it lists are the tombstones after it. -/
theorem WellStamped.changesSince_isDelta (hw : WellStamped key m) (l : Epoch) :
    DeltaSync.IsDelta (m.view f key msg) l
      ((sinceWithFilter f l (m.values.entries.map (·.2))).map fun v => (key v, msg v))
      ((sinceWithFilter f l m.deleted).map key) where
  ups_iff k w := by
    rw [List.mem_map]
    simp only [mem_sinceWithFilter, mem_values_iff, view_current, Option.map_eq_some_iff,
      Prod.mk.injEq]
    constructor
    · rintro ⟨_, ⟨c, ⟨k', hk'⟩, hch, rfl⟩, hkey, rfl⟩
      obtain rfl : k' = k := (hw.keyed k' c hk').symm.trans hkey
      exact ⟨c.stamp f, ⟨c, hk', rfl, rfl⟩, DualEpochCounter.lt_stamp_iff.mpr hch⟩
    · rintro ⟨_, ⟨c, hc, rfl, rfl⟩, hlt⟩
      exact ⟨c.inner, ⟨c, ⟨k, hc⟩, DualEpochCounter.lt_stamp_iff.mp hlt, rfl⟩, hw.keyed k c hc, rfl⟩
  dels_iff k := by
    simp only [List.mem_map, mem_sinceWithFilter, view_tombstones, Prod.mk.injEq]
    constructor
    · rintro ⟨_, ⟨d, hd, hch, rfl⟩, rfl⟩
      exact ⟨d.stamp f, ⟨d, hd, rfl, rfl⟩, DualEpochCounter.lt_stamp_iff.mpr hch⟩
    · rintro ⟨_, ⟨d, hd, rfl, rfl⟩, hlt⟩
      exact ⟨d.inner, ⟨d, hd, DualEpochCounter.lt_stamp_iff.mp hlt, rfl⟩, rfl⟩

/-- Nothing is stamped after the map's own epoch. -/
theorem WellStamped.isDelta_nil (hw : WellStamped key m) :
    DeltaSync.IsDelta (m.view f key msg) m.epoch [] [] where
  ups_iff k w := by
    simp only [List.not_mem_nil, false_iff, not_exists, not_and, view_current,
      Option.map_eq_some_iff, Prod.mk.injEq]
    rintro _ ⟨c, hc, -, rfl⟩
    exact not_lt.mpr (DualEpochCounter.stamp_le (hw.values_le k c hc))
  dels_iff k := by
    simp only [List.not_mem_nil, false_iff, not_exists, not_and, view_tombstones, List.mem_map,
      Prod.mk.injEq]
    rintro _ ⟨d, hd, -, rfl⟩
    obtain ⟨e, he, hle, -⟩ := hw.deleted_le d hd
    exact not_lt.mpr ((DualEpochCounter.stamp_le hle).trans (WithBot.coe_le_coe.mpr he))

/-- A reader in step at the map's own epoch holds exactly what it sees. -/
theorem WellStamped.eq_content_of_inStep (hw : WellStamped key m) (hf : f.hasNoChanges = false)
    {mirror : K → Option W} (h : DeltaSync.InStep (m.view f key msg) (m.epoch : WithBot Epoch) mirror) :
    mirror = (m.view f key msg).content :=
  h.applyDelta_eq (hw.ordered hf) hw.isDelta_nil

/-- Removing at a newer epoch than the reader's is a frame of what it sees. -/
theorem WellStamped.remove_frame (hw : WellStamped key m) {l : Epoch} (hl : l < m.epoch)
    (hf : f.hasNoChanges = false) (k : K) :
    DeltaSync.Frame (l : WithBot Epoch) (m.view f key msg) ((m.remove k).2.view f key msg) where
  current k' := by
    by_cases hk : k' = k
    · subst hk
      rcases h0 : m.values.lookup k' with _ | c
      · exact .inl (by rw [remove_of_lookup_none h0])
      · -- the entry goes, with a tombstone stamped at the current epoch
        refine .inr (.inr ⟨by simp [lookup_remove], m.epoch, ?_, WithBot.coe_lt_coe.mpr hl⟩)
        rw [remove_of_lookup_some h0, view_tombstones, List.mem_map]
        exact ⟨c.setEpoch m.epoch, by simp, by simp [hw.keyed k' c h0, DualEpochCounter.stamp_setEpoch hf]⟩
    · exact .inl (by simp [lookup_remove, hk])
  tombstones x hx := by
    rw [view_tombstones, remove_deleted]
    split <;> simp_all

variable [DualDiff V]

/-- Updating at a newer epoch than the reader's is a frame of what it sees, when a change the
filter does not look at leaves the message as it was. -/
theorem update_frame {l : Epoch} (hl : l < m.epoch) (hf : f.hasNoChanges = false)
    (hmsg : ∀ old new : V, (DualDiff.diff old new).hasNoChanges = false →
      f.overlaps (DualDiff.diff old new) = false → msg new = msg old) (k : K) (v : V) :
    DeltaSync.Frame (l : WithBot Epoch) (m.view f key msg) ((m.update k v).2.view f key msg) where
  current k' := by
    by_cases hk : k' = k
    · subst hk
      have hfresh : (l : WithBot Epoch) < m.epoch := WithBot.coe_lt_coe.mpr hl
      rcases h0 : m.values.lookup k' with _ | c
      · -- a new key is stamped whole at the current epoch
        refine .inr (.inl ⟨msg v, m.epoch, ?_, hfresh⟩)
        simp [update_of_lookup_none h0, DualEpochCounter.stamp_setEpoch hf]
      · cases hd : (DualDiff.diff c.inner v).hasNoChanges
        · cases ho : f.overlaps (DualDiff.diff c.inner v)
          · -- a change the filter does not look at: the reader sees the entry as it was
            refine .inl ?_
            simp [update_of_change h0 hd, h0, DualEpochCounter.stamp_restamp_of_not_overlaps ho,
              hmsg c.inner v hd ho]
          · refine .inr (.inl ⟨msg v, (c.restamp v (DualDiff.diff c.inner v) m.epoch).stamp f,
              by simp [update_of_change h0 hd], ?_⟩)
            exact hfresh.trans_le (DualEpochCounter.le_stamp_restamp ho)
        · exact .inl (by rw [update_of_noChange h0 hd])
    · exact .inl (by simp [lookup_update_ne hk])
  tombstones x hx := by simpa using hx

end View

end DualEpochMap

end Fluvio.Metadata
