import Mathlib.Data.List.Basic

/-!
Searching a list sorted by a comparison (`slice::binary_search_by`).

The standard library documents the search by its result, not its loop: on a slice ordered
by the comparator it returns `Ok` with the index of a matching element, or `Err` with the
index where one could be inserted keeping the order. `binarySearchBy` is that contract
with the first match taken: the index is where the elements `Less` than the target end.
Its two lemmas say what each result tells about the elements; neither needs the list to
be sorted, which the contract needs only to make the result unique.
-/

namespace Search

variable {α : Type*}

/-- `binary_search_by` by its contract: the first index whose element is not `Less` than the
target, as `Ok` when that element matches and as `Err` otherwise. -/
def binarySearchBy (xs : List α) (f : α → Ordering) : Except Nat Nat :=
  let i := xs.findIdx fun x => f x != .lt
  match xs[i]? with
  | some x => if f x = .eq then .ok i else .error i
  | none => .error i

/-- Before the index found, every element is `Less` than the target. -/
theorem lt_of_lt_findIdx {xs : List α} {f : α → Ordering} {j : Nat} (hj : j < xs.findIdx fun x => f x != .lt)
    (hlen : j < xs.length) : f xs[j] = .lt := by
  have h := List.not_of_lt_findIdx hj
  simpa using h

/-- **`Ok i`**: element `i` matches, and every element before it is `Less`. -/
theorem binarySearchBy_ok {xs : List α} {f : α → Ordering} {i : Nat} (h : binarySearchBy xs f = .ok i) :
    ∃ hi : i < xs.length, f xs[i] = .eq ∧ ∀ j, j < i → ∀ hlen : j < xs.length, f xs[j] = .lt := by
  dsimp only [binarySearchBy] at h
  split at h
  · rename_i x hx
    split at h
    · rename_i heq
      cases h
      obtain ⟨hi, hxi⟩ := List.getElem?_eq_some_iff.mp hx
      refine ⟨hi, hxi ▸ heq, fun j hj hlen => lt_of_lt_findIdx hj hlen⟩
    · cases h
  · cases h

/-- **`Err i`**: every element before `i` is `Less`, and element `i`, if there is one, is
`Greater`. -/
theorem binarySearchBy_error {xs : List α} {f : α → Ordering} {i : Nat} (h : binarySearchBy xs f = .error i) :
    i ≤ xs.length ∧ (∀ j, j < i → ∀ hlen : j < xs.length, f xs[j] = .lt) ∧
      ∀ hi : i < xs.length, f xs[i] = .gt := by
  dsimp only [binarySearchBy] at h
  have hle : (xs.findIdx fun x => f x != .lt) ≤ xs.length := List.findIdx_le_length
  split at h
  · rename_i x hx
    split at h
    · cases h
    · rename_i hne
      cases h
      obtain ⟨hi, hxi⟩ := List.getElem?_eq_some_iff.mp hx
      refine ⟨hle, fun j hj hlen => lt_of_lt_findIdx hj hlen, fun _ => ?_⟩
      have hnlt := @List.findIdx_getElem _ (fun x => f x != .lt) xs hi
      simp only [hxi] at hnlt ⊢
      cases hfx : f x <;> simp_all
  · rename_i hnone
    cases h
    refine ⟨hle, fun j hj hlen => lt_of_lt_findIdx hj hlen, fun hi => ?_⟩
    rw [List.getElem?_eq_getElem hi] at hnone
    cases hnone

end Search
