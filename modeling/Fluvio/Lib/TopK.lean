import Mathlib.Data.List.Perm.Subperm
import Mathlib.Data.List.Forall2
import Mathlib.Data.List.Count

/-!
The `k`-th largest element of a list, and the streaming selection that finds it with a
bounded min-heap: the first `k` elements fill the heap, and each later element larger than
the heap's minimum replaces that minimum; at the end the minimum is the answer.

The heap is modelled by its elements. What a selection can observe of a binary heap, its
`peek` and its `peek_mut` replacement of the top, depends only on the multiset it holds.

* `IsKthLargest k l r` — at least `k` elements of `l` are at least `r`, fewer than `k`
  are above it;
* `heapSelect_isKthLargest` — the streaming selection computes it;
* `IsKthLargest.le_of_forall₂` — it grows when the elements grow;
* `IsKthLargest.of_filter` — it is the same for the elements above a bound below it.

The order is any linear order of the core library, so that fixed-width integers can be
used as they are.
-/

namespace TopK

variable {α : Type}

/-- Counting is monotone along a relation that carries the predicate. -/
theorem countP_le_of_forall₂ {R : α → α → Prop} {p : α → Bool} (hp : ∀ a b, R a b → p a → p b) :
    ∀ {l l' : List α}, List.Forall₂ R l l' → l.countP p ≤ l'.countP p := by
  intro l l' h
  induction h with
  | nil => simp
  | @cons a b _ _ hab _ ih =>
    have hstep : (if p a then 1 else 0) ≤ (if p b then 1 else 0) := by
      cases ha : p a
      · simp
      · simp [hp a b hab ha]
    simp only [List.countP_cons]
    omega

variable [LE α] [LT α] [Std.IsLinearOrder α] [Std.LawfulOrderLT α] [DecidableLE α] [DecidableLT α]

/-! ### The `k`-th largest element -/

/-- `r` is the `k`-th largest element of `l`: `k` elements are at least `r`, and fewer
than `k` are above it. -/
def IsKthLargest (k : Nat) (l : List α) (r : α) : Prop :=
  k ≤ l.countP (fun x => decide (r ≤ x)) ∧ l.countP (fun x => decide (r < x)) < k

/-- **The `k`-th largest grows with the elements**: if every element of `l'` is at least
the matching one of `l`, its `k`-th largest is at least that of `l`. -/
theorem IsKthLargest.le_of_forall₂ {k : Nat} {l l' : List α} {r r' : α}
    (hl : List.Forall₂ (· ≤ ·) l l') (hr : IsKthLargest k l r) (hr' : IsKthLargest k l' r') :
    r ≤ r' := by
  by_contra hlt
  have hlt : r' < r := Std.not_le.mp hlt
  -- `k` elements of `l'` are at least `r`, hence above `r'`: too many for `r'`
  have hge : l.countP (fun x => decide (r ≤ x)) ≤ l'.countP (fun x => decide (r ≤ x)) :=
    countP_le_of_forall₂ (fun a b hab ha => by simp only [decide_eq_true_eq] at ha ⊢; exact Std.le_trans ha hab) hl
  have habove : l'.countP (fun x => decide (r ≤ x)) ≤ l'.countP (fun x => decide (r' < x)) :=
    List.countP_mono_left fun x _ hx => by
      simp only [decide_eq_true_eq] at hx ⊢
      exact Std.lt_of_lt_of_le hlt hx
  have := hr.1
  have := hr'.2
  omega

/-- **Only the elements above a bound count** once the `k`-th largest of those is above it. -/
theorem IsKthLargest.of_filter {k : Nat} {l : List α} {b r : α}
    (h : IsKthLargest k (l.filter fun x => decide (b < x)) r) (hbr : b < r) : IsKthLargest k l r := by
  obtain ⟨hge, hgt⟩ := h
  have hsub : (l.filter fun x => decide (b < x)).countP (fun x => decide (r ≤ x)) ≤
      l.countP (fun x => decide (r ≤ x)) :=
    (List.filter_sublist).countP_le
  -- every element above `r` is above `b`, so the filter keeps all of them
  have hsame : (l.filter fun x => decide (b < x)).countP (fun x => decide (r < x)) =
      l.countP (fun x => decide (r < x)) := by
    rw [List.countP_filter]
    apply List.countP_congr
    intro x _
    simp only [Bool.and_eq_true, decide_eq_true_eq]
    exact ⟨fun h => h.1, fun h => ⟨h, Std.lt_trans hbr h⟩⟩
  exact ⟨Nat.le_trans hge hsub, hsame ▸ hgt⟩

/-- **The `k`-th largest is the greatest value that `k` elements reach.** -/
theorem IsKthLargest.le_of_count {k : Nat} {l : List α} {r x : α} (h : IsKthLargest k l r)
    (hx : k ≤ l.countP fun y => decide (x ≤ y)) : x ≤ r := by
  by_contra hlt
  have hlt : r < x := Std.not_le.mp hlt
  -- every element reaching `x` is above `r`, and fewer than `k` are
  have hle : l.countP (fun y => decide (x ≤ y)) ≤ l.countP (fun y => decide (r < y)) :=
    List.countP_mono_left fun y _ hy => by
      simp only [decide_eq_true_eq] at hy ⊢
      exact Std.lt_of_lt_of_le hlt hy
  have := h.2
  omega

/-- There is one `k`-th largest element. -/
theorem IsKthLargest.unique {k : Nat} {l : List α} {r r' : α} (h : IsKthLargest k l r)
    (h' : IsKthLargest k l r') : r = r' :=
  Std.le_antisymm (h'.le_of_count h.1) (h.le_of_count h'.1)

/-! ### The largest element -/

/-- The largest element: `Iterator::max`. -/
def maxOf : List α → Option α
  | [] => none
  | x :: xs =>
    match maxOf xs with
    | none => some x
    | some m => some (if x < m then m else x)

omit [DecidableLE α] in
theorem maxOf_spec : ∀ {l : List α} {m : α}, maxOf l = some m → m ∈ l ∧ ∀ y ∈ l, y ≤ m
  | [], _, h => by simp [maxOf] at h
  | x :: xs, m, h => by
    cases hxs : maxOf xs with
    | none =>
      simp only [maxOf, hxs, Option.some.injEq] at h
      subst h
      have hnil : xs = [] := by
        cases xs with
        | nil => rfl
        | cons y ys => simp [maxOf] at hxs; split at hxs <;> simp at hxs
      subst hnil
      simp [Std.le_refl]
    | some m' =>
      obtain ⟨hmem, hle⟩ := maxOf_spec hxs
      simp only [maxOf, hxs, Option.some.injEq] at h
      subst h
      split
      · rename_i hlt
        refine ⟨List.mem_cons_of_mem x hmem, ?_⟩
        intro y hy
        rcases List.mem_cons.mp hy with rfl | hy
        · exact Std.le_of_lt hlt
        · exact hle y hy
      · rename_i hnlt
        refine ⟨List.mem_cons_self, ?_⟩
        intro y hy
        rcases List.mem_cons.mp hy with rfl | hy
        · exact Std.le_refl _
        · exact Std.le_trans (hle y hy) (Std.not_lt.mp hnlt)

omit [LE α] [Std.IsLinearOrder α] [Std.LawfulOrderLT α] [DecidableLE α] in
theorem maxOf_eq_none : ∀ {l : List α}, maxOf l = none ↔ l = []
  | [] => by simp [maxOf]
  | x :: xs => by
    simp only [maxOf, reduceCtorEq, iff_false]
    split <;> simp

/-! ### The heap -/

/-- The smallest element, which `peek` returns on a heap of reversed elements. -/
def minOf : List α → Option α
  | [] => none
  | x :: xs =>
    match minOf xs with
    | none => some x
    | some m => some (if m < x then m else x)

omit [DecidableLE α] in
theorem minOf_spec : ∀ {l : List α} {m : α}, minOf l = some m → m ∈ l ∧ ∀ y ∈ l, m ≤ y
  | [], _, h => by simp [minOf] at h
  | x :: xs, m, h => by
    cases hxs : minOf xs with
    | none =>
      simp only [minOf, hxs, Option.some.injEq] at h
      subst h
      have hnil : xs = [] := by
        cases xs with
        | nil => rfl
        | cons y ys => simp [minOf] at hxs; split at hxs <;> simp at hxs
      subst hnil
      simp [Std.le_refl]
    | some m' =>
      obtain ⟨hmem, hle⟩ := minOf_spec hxs
      simp only [minOf, hxs, Option.some.injEq] at h
      subst h
      split
      · rename_i hlt
        refine ⟨List.mem_cons_of_mem x hmem, ?_⟩
        intro y hy
        rcases List.mem_cons.mp hy with rfl | hy
        · exact Std.le_of_lt hlt
        · exact hle y hy
      · rename_i hnlt
        refine ⟨List.mem_cons_self, ?_⟩
        intro y hy
        rcases List.mem_cons.mp hy with rfl | hy
        · exact Std.le_refl _
        · exact Std.le_trans (Std.not_lt.mp hnlt) (hle y hy)

omit [LE α] [Std.IsLinearOrder α] [Std.LawfulOrderLT α] [DecidableLE α] in
theorem minOf_isSome : ∀ {l : List α}, l ≠ [] → (minOf l).isSome
  | [], h => absurd rfl h
  | x :: xs, _ => by
    simp only [minOf]
    split <;> rfl

/-- What the heap keeps of the elements seen so far: `k` of them, and exactly as many
elements above any value at least its minimum. -/
structure HeapInv (k : Nat) (seen heap : List α) : Prop where
  length : heap.length = k
  subperm : heap.Subperm seen
  above : ∀ m, minOf heap = some m → ∀ v, m ≤ v →
    seen.countP (fun y => decide (v < y)) = heap.countP (fun y => decide (v < y))

omit [Std.IsLinearOrder α] [Std.LawfulOrderLT α] [DecidableLE α] in
theorem HeapInv.init (k : Nat) (xs : List α) (hk : k ≤ xs.length) : HeapInv k (xs.take k) (xs.take k) :=
  ⟨by simp [hk], List.Subperm.refl _, fun _ _ _ _ => rfl⟩

/-- The minimum of a heap that keeps the invariant is the `k`-th largest of what it saw. -/
theorem HeapInv.isKthLargest {k : Nat} {seen heap : List α} {r : α} (h : HeapInv k seen heap)
    (hr : minOf heap = some r) : IsKthLargest k seen r := by
  obtain ⟨hmem, hmin⟩ := minOf_spec hr
  refine ⟨?_, ?_⟩
  · -- every element of the heap is at least `r`, and the heap is part of what was seen
    have hall : heap.countP (fun x => decide (r ≤ x)) = k := by
      rw [List.countP_eq_length.mpr (fun x hx => by simpa using hmin x hx), h.length]
    exact hall ▸ h.subperm.countP_le _
  · -- `r` itself is in the heap and not above `r`
    rw [h.above r hr r (Std.le_refl r)]
    have hlt : heap.countP (fun x => decide (r < x)) < heap.length :=
      List.countP_lt_length_iff.mpr ⟨r, hmem, by simp [Std.lt_irrefl]⟩
    rw [h.length] at hlt
    exact hlt

variable [DecidableEq α]

/-- `peek_mut` on the top followed by an assignment: the smallest element becomes `x`. -/
def replaceMin (heap : List α) (m x : α) : List α := x :: heap.erase m

/-- One element of the stream: it replaces the heap's minimum when it is larger. -/
def offer (heap : List α) (x : α) : List α :=
  match minOf heap with
  | some m => if m < x then replaceMin heap m x else heap
  | none => heap

/-- The selection: `none` when the stream has fewer than `k` elements, otherwise the
minimum of the heap after the whole stream. -/
def heapSelect (k : Nat) (xs : List α) : Option α :=
  if xs.length < k then none
  else minOf ((xs.drop k).foldl offer (xs.take k))

omit [DecidableLE α] in
/-- **One step of the stream keeps the invariant.** A larger element replaces the minimum;
no count above the old minimum changes, and the new minimum is not below the old one. -/
theorem HeapInv.offer {k : Nat} {seen heap : List α} (hk : 0 < k) (h : HeapInv k seen heap) (x : α) :
    HeapInv k (seen ++ [x]) (TopK.offer heap x) := by
  have hne : heap ≠ [] := by
    intro hnil
    have := h.length
    simp [hnil] at this
    omega
  obtain ⟨m, hm⟩ := Option.isSome_iff_exists.mp (minOf_isSome hne)
  obtain ⟨hmem, hmin⟩ := minOf_spec hm
  have hperm : heap.Perm (m :: heap.erase m) := List.perm_cons_erase hmem
  by_cases hlt : m < x
  · simp only [TopK.offer, hm, hlt, if_true, replaceMin]
    -- the new minimum is at least the old one
    have hnew : ∀ m', minOf (x :: heap.erase m) = some m' → m ≤ m' := by
      intro m' hm'
      obtain ⟨hmem', -⟩ := minOf_spec hm'
      rcases List.mem_cons.mp hmem' with rfl | hin
      · exact Std.le_of_lt hlt
      · exact hmin m' ((List.erase_sublist).subset hin)
    refine ⟨?_, ?_, ?_⟩
    · rw [List.length_cons, List.length_erase_of_mem hmem, h.length]
      omega
    · have hsub : (heap.erase m).Subperm seen := (List.erase_sublist.subperm).trans h.subperm
      exact ((List.subperm_cons x).mpr hsub).trans (List.perm_append_singleton x seen).symm.subperm
    · intro m' hm' v hv
      have hmv : m ≤ v := Std.le_trans (hnew m' hm') hv
      have hcount := h.above m hm v hmv
      have hmnot : ¬ v < m := Std.not_lt.mpr hmv
      rw [List.countP_append, hcount, hperm.countP_eq]
      simp [List.countP_cons, hmnot, Nat.add_comm]
  · simp only [TopK.offer, hm, hlt, if_false]
    refine ⟨h.length, h.subperm.trans (List.sublist_append_left seen [x]).subperm, ?_⟩
    intro m' hm' v hv
    rw [hm, Option.some.injEq] at hm'
    subst hm'
    have hxv : ¬ v < x := fun hvx => hlt (Std.lt_of_le_of_lt hv hvx)
    rw [List.countP_append, h.above m hm v hv]
    simp [hxv]

omit [DecidableLE α] in
theorem HeapInv.foldl {k : Nat} (hk : 0 < k) :
    ∀ (rest : List α) {seen heap : List α}, HeapInv k seen heap → HeapInv k (seen ++ rest) (rest.foldl TopK.offer heap)
  | [], _, _, h => by simpa using h
  | x :: rest, seen, heap, h => by
    have := HeapInv.foldl hk rest (h.offer hk x)
    simpa using this

omit [DecidableLE α] in
/-- An answer of the selection is the minimum of a heap that kept the invariant over the whole
stream. -/
theorem heapSelect_heapInv {k : Nat} (hk : 0 < k) {xs : List α} {r : α} (h : heapSelect k xs = some r) :
    ∃ heap, HeapInv k xs heap ∧ minOf heap = some r := by
  unfold heapSelect at h
  split at h
  · simp at h
  · rename_i hlen
    have hinv := (HeapInv.init k xs (by omega)).foldl hk (xs.drop k)
    rw [List.take_append_drop] at hinv
    exact ⟨_, hinv, h⟩

/-- **The streaming selection finds the `k`-th largest element.** -/
theorem heapSelect_isKthLargest {k : Nat} (hk : 0 < k) {xs : List α} {r : α} (h : heapSelect k xs = some r) :
    IsKthLargest k xs r := by
  obtain ⟨heap, hinv, hmin⟩ := heapSelect_heapInv hk h
  exact hinv.isKthLargest hmin

omit [DecidableLE α] in
/-- The selection answers with one of the elements. -/
theorem heapSelect_mem {k : Nat} (hk : 0 < k) {xs : List α} {r : α} (h : heapSelect k xs = some r) : r ∈ xs := by
  obtain ⟨heap, hinv, hmin⟩ := heapSelect_heapInv hk h
  exact hinv.subperm.subset (minOf_spec hmin).1

omit [DecidableLE α] in
/-- With `k` elements or more, the selection answers. -/
theorem heapSelect_isSome {k : Nat} (hk : 0 < k) {xs : List α} (hlen : k ≤ xs.length) :
    (heapSelect k xs).isSome := by
  have hinv := (HeapInv.init k xs hlen).foldl hk (xs.drop k)
  have hne : (xs.drop k).foldl offer (xs.take k) ≠ [] := by
    intro hnil
    have := hinv.length
    rw [hnil] at this
    simp at this
    omega
  simp only [heapSelect, Nat.not_lt.mpr hlen, if_false]
  exact minOf_isSome hne

/-- A list of `k` elements or more has a `k`-th largest, and it is one of them. -/
theorem exists_isKthLargest {k : Nat} (hk : 0 < k) {xs : List α} (hlen : k ≤ xs.length) :
    ∃ r ∈ xs, IsKthLargest k xs r := by
  obtain ⟨r, hr⟩ := Option.isSome_iff_exists.mp (heapSelect_isSome hk hlen)
  exact ⟨r, heapSelect_mem hk hr, heapSelect_isKthLargest hk hr⟩

omit [DecidableLE α] in
/-- The selection answers exactly when the stream has `k` elements. -/
theorem heapSelect_eq_none {k : Nat} (hk : 0 < k) {xs : List α} : heapSelect k xs = none ↔ xs.length < k := by
  constructor
  · intro h
    by_contra hlen
    have := heapSelect_isSome hk (Nat.not_lt.mp hlen)
    rw [h] at this
    exact absurd this (by simp)
  · intro hlen
    simp [heapSelect, hlen]

example : heapSelect 2 [6, 9, 7] = some (7 : Int) := by decide

end TopK
