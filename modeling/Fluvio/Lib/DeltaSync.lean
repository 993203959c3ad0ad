import Mathlib.Order.Basic
import Mathlib.Order.Lattice
import Mathlib.Logic.Function.Basic
import Mathlib.Data.List.Basic

/-!
A replica kept in step with a versioned source by deltas. The source stamps each entry with
the version of its last change and keeps, for each key it removed, a tombstone with the version
of the removal. A replica that has seen the source up to version `l` is sent the entries
stamped after `l` and the keys of the tombstones after `l`; it removes those keys and then
writes those entries.

* `Versioned` — the source as the replica sees it; `Versioned.Ordered` — no tombstone of a key
  is newer than the key's entry.
* `InStep s l m` — the replica `m` holds the source `s` as of version `l`.
* `InStep.applyDelta_eq` — removing the delta's keys and writing its entries gives the source's
  content; `removeAll_upsertAll_comm` — the other order gives the same when no key is both.
* `Frame` — a change of the source that stamps only after `l`; it keeps `InStep`
  (`InStep.of_frame`) and composes (`Frame.trans`).
-/

namespace DeltaSync

variable {K V T : Type}

/-- A source as a replica sees it: each present key's value with the version of its last
change, and a tombstone for each removal, with its version. -/
structure Versioned (K V T : Type) where
  current : K → Option (V × T)
  tombstones : List (K × T)

namespace Versioned

/-- What the source holds. -/
def content (s : Versioned K V T) (k : K) : Option V := (s.current k).map Prod.fst

@[simp] theorem content_eq_none {s : Versioned K V T} {k : K} :
    s.content k = none ↔ s.current k = none := by
  simp [content]

theorem content_of_current {s : Versioned K V T} {k : K} {v : V} {t : T}
    (h : s.current k = some (v, t)) : s.content k = some v := by
  simp [content, h]

variable [LinearOrder T]

/-- No tombstone of a key is newer than the key's current entry. -/
def Ordered (s : Versioned K V T) : Prop :=
  ∀ k v t t', s.current k = some (v, t) → (k, t') ∈ s.tombstones → t' ≤ t

end Versioned

/-! ### The replica's side -/

section Replica

variable [DecidableEq K]

/-- The replica after removing each key of `dels`. -/
def removeAll (m : K → Option V) (dels : List K) : K → Option V :=
  dels.foldl (fun m k => Function.update m k none) m

/-- The replica after writing each entry of `ups`, in order. -/
def upsertAll (m : K → Option V) (ups : List (K × V)) : K → Option V :=
  ups.foldl (fun m kv => Function.update m kv.1 (some kv.2)) m

@[simp] theorem removeAll_cons (m : K → Option V) (d : K) (dels : List K) :
    removeAll m (d :: dels) = removeAll (Function.update m d none) dels := rfl

@[simp] theorem upsertAll_cons (m : K → Option V) (kv : K × V) (ups : List (K × V)) :
    upsertAll m (kv :: ups) = upsertAll (Function.update m kv.1 (some kv.2)) ups := rfl

theorem removeAll_apply (m : K → Option V) (dels : List K) (k : K) :
    removeAll m dels k = if k ∈ dels then none else m k := by
  induction dels generalizing m with
  | nil => rfl
  | cons d dels ih =>
    rw [removeAll_cons, ih]
    by_cases hk : k = d
    · subst hk
      simp
    · simp [hk]

theorem upsertAll_of_not_mem {m : K → Option V} {ups : List (K × V)} {k : K}
    (h : ∀ v, (k, v) ∉ ups) : upsertAll m ups k = m k := by
  induction ups generalizing m with
  | nil => rfl
  | cons kv ups ih =>
    have hne : k ≠ kv.1 := fun hk => h kv.2 (by simp [hk])
    rw [upsertAll_cons, ih fun v hv => h v (List.mem_cons_of_mem _ hv), Function.update_of_ne hne]

/-- An entry written for `k` is what the replica holds at `k`, when every entry for `k`
carries the same value. -/
theorem upsertAll_of_mem {m : K → Option V} {ups : List (K × V)} {k : K} {v : V}
    (hmem : (k, v) ∈ ups) (hfun : ∀ v', (k, v') ∈ ups → v' = v) : upsertAll m ups k = some v := by
  induction ups generalizing m with
  | nil => cases hmem
  | cons kv ups ih =>
    rw [upsertAll_cons]
    by_cases hlater : ∃ v', (k, v') ∈ ups
    · obtain ⟨v', hv'⟩ := hlater
      obtain rfl := hfun v' (List.mem_cons_of_mem _ hv')
      exact ih hv' fun w hw => hfun w (List.mem_cons_of_mem _ hw)
    · -- the head is the last entry for `k`
      simp only [not_exists] at hlater
      have hhead : kv = (k, v) := by
        rcases List.mem_cons.mp hmem with h | h
        · exact h.symm
        · exact absurd h (hlater v)
      subst hhead
      rw [upsertAll_of_not_mem hlater]
      simp

/-- The replica built from nothing by the entries of a list is the map the list describes. -/
theorem upsertAll_eq {ups : List (K × V)} {f : K → Option V}
    (h : ∀ k v, (k, v) ∈ ups ↔ f k = some v) : upsertAll (fun _ => none) ups = f := by
  funext k
  cases hk : f k with
  | none => exact upsertAll_of_not_mem fun v hv => by simp [(h k v).mp hv] at hk
  | some v =>
    exact upsertAll_of_mem ((h k v).mpr hk) fun v' hv' => by
      rw [(h k v').mp hv'] at hk
      exact Option.some.inj hk

/-- What the replica holds at `k` after the writes depends only on what it held at `k`. -/
theorem upsertAll_congr {m m' : K → Option V} {k : K} (h : m k = m' k) (ups : List (K × V)) :
    upsertAll m ups k = upsertAll m' ups k := by
  induction ups generalizing m m' with
  | nil => exact h
  | cons kv ups ih =>
    apply ih
    by_cases hk : k = kv.1
    · subst hk
      simp
    · simp [Function.update_of_ne hk, h]

/-- Removing and writing commute when no key is both removed and written. -/
theorem removeAll_upsertAll_comm {m : K → Option V} {ups : List (K × V)} {dels : List K}
    (hdisj : ∀ kv ∈ ups, kv.1 ∉ dels) :
    removeAll (upsertAll m ups) dels = upsertAll (removeAll m dels) ups := by
  funext k
  rw [removeAll_apply]
  split_ifs with hk
  · rw [upsertAll_of_not_mem (fun v hv => hdisj _ hv hk), removeAll_apply, if_pos hk]
  · exact upsertAll_congr (by rw [removeAll_apply, if_neg hk]) ups

/-- Where an entry is written, the replica's old value there does not matter. -/
theorem upsertAll_indep {m m' : K → Option V} {ups : List (K × V)} {k : K} (h : ∃ v, (k, v) ∈ ups) :
    upsertAll m ups k = upsertAll m' ups k := by
  induction ups generalizing m m' with
  | nil => simp at h
  | cons kv ups ih =>
    rw [upsertAll_cons, upsertAll_cons]
    by_cases hlater : ∃ v, (k, v) ∈ ups
    · exact ih hlater
    · -- the head is the last entry for `k`, and writes the same value on both sides
      simp only [not_exists] at hlater
      obtain ⟨v, hv⟩ := h
      have hk : kv.1 = k := by
        rcases List.mem_cons.mp hv with h | h
        · rw [← h]
        · exact absurd h (hlater v)
      subst hk
      rw [upsertAll_of_not_mem hlater, upsertAll_of_not_mem hlater]
      simp

section Rename

variable {K' : Type} [DecidableEq K'] {f : K → K'}

/-- Removing keys renamed along an injective map, seen through the map, is removing them. -/
theorem removeAll_map_comp (hf : f.Injective) (m : K' → Option V) (dels : List K) :
    removeAll m (dels.map f) ∘ f = removeAll (m ∘ f) dels := by
  funext k
  simp only [Function.comp, removeAll_apply, List.mem_map_of_injective hf]

/-- Writing entries with renamed keys, seen through the injective renaming, is writing them. -/
theorem upsertAll_map_comp (hf : f.Injective) (m : K' → Option V) (ups : List (K × V)) :
    upsertAll m (ups.map fun p => (f p.1, p.2)) ∘ f = upsertAll (m ∘ f) ups := by
  induction ups generalizing m with
  | nil => rfl
  | cons kv ups ih =>
    rw [List.map_cons, upsertAll_cons, upsertAll_cons, ih, Function.update_comp_eq_of_injective _ hf]

omit [DecidableEq K] in
/-- A key outside the renaming's range is neither removed nor written. -/
theorem removeAll_map_of_not_mem {k' : K'} (h : ∀ k, f k ≠ k') (m : K' → Option V) (dels : List K) :
    removeAll m (dels.map f) k' = m k' := by
  rw [removeAll_apply, if_neg]
  simpa using fun k _ => h k

omit [DecidableEq K] in
theorem upsertAll_map_of_not_mem {k' : K'} (h : ∀ k, f k ≠ k') (m : K' → Option V) (ups : List (K × V)) :
    upsertAll m (ups.map fun p => (f p.1, p.2)) k' = m k' :=
  upsertAll_of_not_mem fun v hv => by
    obtain ⟨p, -, hp⟩ := List.mem_map.mp hv
    exact h p.1 (Prod.mk.inj hp).1

end Rename

end Replica

/-! ### Keeping in step -/

section InStep

variable [LinearOrder T]

/-- `ups` and `dels` are the delta of `s` after version `l`: the entries stamped after `l`,
and the keys of the tombstones after `l`. -/
structure IsDelta (s : Versioned K V T) (l : T) (ups : List (K × V)) (dels : List K) : Prop where
  ups_iff : ∀ k v, (k, v) ∈ ups ↔ ∃ t, s.current k = some (v, t) ∧ l < t
  dels_iff : ∀ k, k ∈ dels ↔ ∃ t, (k, t) ∈ s.tombstones ∧ l < t

/-- The replica `m` holds the source `s` as of version `l`: an entry stamped by `l` is in the
replica as the source has it, and a key the replica holds that the source has not was removed
after `l`. -/
structure InStep (s : Versioned K V T) (l : T) (m : K → Option V) : Prop where
  kept : ∀ k v t, s.current k = some (v, t) → t ≤ l → m k = some v
  removed : ∀ k, s.current k = none → m k ≠ none → ∃ t, (k, t) ∈ s.tombstones ∧ l < t

variable {s s' s'' : Versioned K V T} {l : T} {m : K → Option V}

/-- A replica equal to the source's content is in step with it as of any version. -/
theorem InStep.of_content (l : T) : InStep s l s.content where
  kept _ _ _ h _ := Versioned.content_of_current h
  removed _ h hm := absurd (Versioned.content_eq_none.mpr h) hm

/-- A change of the source as a replica at version `l` sees it: each key keeps its entry, gets
one stamped after `l`, or is removed with a tombstone after `l`; no tombstone is dropped. -/
structure Frame (l : T) (s s' : Versioned K V T) : Prop where
  current : ∀ k, s'.current k = s.current k ∨ (∃ v t, s'.current k = some (v, t) ∧ l < t) ∨
    (s'.current k = none ∧ ∃ t, (k, t) ∈ s'.tombstones ∧ l < t)
  tombstones : ∀ x ∈ s.tombstones, x ∈ s'.tombstones

theorem Frame.refl (l : T) (s : Versioned K V T) : Frame l s s where
  current _ := .inl rfl
  tombstones _ h := h

theorem Frame.trans (h₁ : Frame l s s') (h₂ : Frame l s' s'') : Frame l s s'' where
  current k := by
    rcases h₂.current k with h | h | h
    · rcases h₁.current k with h' | h' | ⟨hnone, t, ht, hlt⟩
      · exact .inl (h.trans h')
      · exact .inr (.inl (h ▸ h'))
      · exact .inr (.inr ⟨h.trans hnone, t, h₂.tombstones _ ht, hlt⟩)
    · exact .inr (.inl h)
    · exact .inr (.inr h)
  tombstones x h := h₂.tombstones x (h₁.tombstones x h)

/-- A change that stamps only after `l` keeps a replica in step as of `l`. -/
theorem InStep.of_frame (h : InStep s l m) (hf : Frame l s s') : InStep s' l m where
  kept k v t hk hle := by
    rcases hf.current k with h' | ⟨v', t', h', hlt⟩ | ⟨hnone, -⟩
    · exact h.kept k v t (h' ▸ hk) hle
    · rw [hk, Option.some.injEq, Prod.mk.injEq] at h'
      exact absurd hle (not_le.mpr (h'.2 ▸ hlt))
    · simp [hk] at hnone
  removed k hk hm := by
    rcases hf.current k with h' | ⟨v', t', h', -⟩ | ⟨-, ht⟩
    · obtain ⟨t, ht, hlt⟩ := h.removed k (h' ▸ hk) hm
      exact ⟨t, hf.tombstones _ ht, hlt⟩
    · simp [hk] at h'
    · exact ht

variable [DecidableEq K]

/-- **Delta application.** A replica in step as of `l` that removes the keys of the delta
after `l` and then writes its entries holds the source's content. -/
theorem InStep.applyDelta_eq (ho : s.Ordered) (h : InStep s l m) {ups : List (K × V)}
    {dels : List K} (hd : IsDelta s l ups dels) : upsertAll (removeAll m dels) ups = s.content := by
  funext k
  rcases hk : s.current k with _ | ⟨v, t⟩
  · -- a key the source does not hold is written by no entry, and removed if the replica has it
    have hnot : ∀ v, (k, v) ∉ ups := fun v hv => by
      obtain ⟨t, ht, -⟩ := (hd.ups_iff k v).mp hv
      simp [hk] at ht
    rw [upsertAll_of_not_mem hnot, removeAll_apply, Versioned.content_eq_none.mpr hk]
    split_ifs with hdel
    · rfl
    · by_contra hm
      exact hdel ((hd.dels_iff k).mpr (h.removed k hk hm))
  · rw [Versioned.content_of_current hk]
    rcases lt_or_ge l t with hlt | hle
    · -- a fresh entry is written
      refine upsertAll_of_mem ((hd.ups_iff k v).mpr ⟨t, hk, hlt⟩) fun v' hv' => ?_
      obtain ⟨t', ht', -⟩ := (hd.ups_iff k v').mp hv'
      rw [hk] at ht'
      exact (Prod.mk.inj (Option.some.inj ht')).1.symm
    · -- an old entry is neither written nor removed, and the replica has it already
      have hnot : ∀ v', (k, v') ∉ ups := fun v' hv' => by
        obtain ⟨t', ht', hlt'⟩ := (hd.ups_iff k v').mp hv'
        rw [hk, Option.some.injEq, Prod.mk.injEq] at ht'
        exact absurd hle (not_le.mpr (ht'.2 ▸ hlt'))
      have hdel : k ∉ dels := fun hdel => by
        obtain ⟨t', ht', hlt'⟩ := (hd.dels_iff k).mp hdel
        exact absurd (hlt'.trans_le (ho k v t t' hk ht')) (not_lt.mpr hle)
      rw [upsertAll_of_not_mem hnot, removeAll_apply, if_neg hdel, h.kept k v t hk hle]

end InStep

end DeltaSync
