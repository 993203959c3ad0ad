import Mathlib.Data.List.Sort

/-!
Repeats in a sorted list, as a uniqueness check over neighbours finds them.

A list sorted by an antisymmetric relation keeps equal elements next to each other, so it has no
repeated element exactly when every two neighbours differ. A check that sorts a list, counts the
neighbouring pairs that differ and adds one gets the list's length exactly then.

* `Sorted.nodup_iff_neighbours_ne` — for a sorted list, no repeats iff neighbours differ;
* `Sorted.countP_neighbours_ne_add_one` — the count form, for a non-empty sorted list;
* `Sorted.countP_insertionSort_iff_nodup` — the count over the sorted copy decides whether the
  list itself repeats an element.
-/

namespace Sorted

variable {α : Type}

/-- The pairs of neighbours of a list, as `windows(2)` yields them. -/
def neighbours (l : List α) : List (α × α) := l.zip l.tail

@[simp] theorem neighbours_nil : neighbours ([] : List α) = [] := rfl

@[simp] theorem neighbours_singleton (a : α) : neighbours [a] = [] := rfl

@[simp] theorem neighbours_cons_cons (a b : α) (l : List α) :
    neighbours (a :: b :: l) = (a, b) :: neighbours (b :: l) := rfl

theorem length_neighbours (l : List α) : (neighbours l).length = l.length - 1 := by
  simp [neighbours]

variable {r : α → α → Prop}

/-- **A sorted list repeats an element exactly when two neighbours are equal.** -/
theorem nodup_iff_neighbours_ne (hanti : ∀ a b, r a b → r b a → a = b) :
    ∀ {l : List α}, l.Pairwise r → (l.Nodup ↔ ∀ p ∈ neighbours l, p.1 ≠ p.2)
  | [], _ => by simp
  | [a], _ => by simp
  | a :: b :: l, hs => by
    have ih := nodup_iff_neighbours_ne hanti hs.of_cons
    rw [List.nodup_cons, ih, neighbours_cons_cons, List.forall_mem_cons]
    dsimp only
    constructor
    · rintro ⟨hnotin, hrest⟩
      refine ⟨fun hab => hnotin ?_, hrest⟩
      rw [hab]
      exact List.mem_cons_self
    · rintro ⟨hab, hrest⟩
      refine ⟨fun hmem => ?_, hrest⟩
      rcases List.mem_cons.mp hmem with h | h
      · exact hab h
      -- `a` further on lies between `b` and itself, so it is `b`
      · have hba : r b a := List.rel_of_pairwise_cons hs.of_cons h
        have hab' : r a b := List.rel_of_pairwise_cons hs List.mem_cons_self
        exact hab (hanti a b hab' hba)

variable [DecidableEq α]

/-- The count form: one more than the neighbouring pairs that differ is the length exactly when
nothing repeats. -/
theorem countP_neighbours_ne_add_one (hanti : ∀ a b, r a b → r b a → a = b) {l : List α}
    (hs : l.Pairwise r) (hne : l ≠ []) :
    (neighbours l).countP (fun p => p.1 != p.2) + 1 = l.length ↔ l.Nodup := by
  have hlen : 0 < l.length := List.length_pos_iff.mpr hne
  have hcount : (neighbours l).countP (fun p => p.1 != p.2) + 1 = l.length ↔
      (neighbours l).countP (fun p => p.1 != p.2) = (neighbours l).length := by
    rw [length_neighbours]
    omega
  rw [hcount, List.countP_eq_length, nodup_iff_neighbours_ne hanti hs]
  simp

/-- **The check on the sorted copy**: sorting by a total, transitive and antisymmetric relation,
then counting the neighbours that differ, decides whether a non-empty list repeats an element. -/
theorem countP_insertionSort_iff_nodup [DecidableRel r] [Std.Total r] [IsTrans α r]
    (hanti : ∀ a b, r a b → r b a → a = b) {l : List α} (hne : l ≠ []) :
    (neighbours (l.insertionSort r)).countP (fun p => p.1 != p.2) + 1 = l.length ↔ l.Nodup := by
  have hsorted : (l.insertionSort r).Pairwise r := List.pairwise_insertionSort r l
  have hne' : l.insertionSort r ≠ [] := by
    intro h
    exact hne (List.eq_nil_of_length_eq_zero (by rw [← List.length_insertionSort r l, h]; rfl))
  rw [← List.length_insertionSort r l, countP_neighbours_ne_add_one hanti hsorted hne',
    (List.perm_insertionSort r l).nodup_iff]

end Sorted
