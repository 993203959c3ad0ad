import Mathlib.Data.List.Induction

/-!
The first element of least score in a list, as a scan finds it: elements without a score are
skipped, and a scored element replaces the best so far only when its score is strictly smaller,
so that among equal scores the earliest wins.

* `IsFirstMin score l a s` — `a` has score `s`, no scored element of `l` scores less, and every
  scored element before `a` scores more;
* `firstMin_eq_none` / `firstMin_isFirstMin` — the scan finds nothing exactly when nothing is
  scored, and otherwise finds the first element of least score, which is unique
  (`IsFirstMin.unique`, `firstMin_eq_of_isFirstMin`);
* `foldl_sentinelStep` — the scan as loops often write it, with the best score so far started at a
  sentinel, is the scan of the scores below the sentinel.

The scores live in any linear order of the core library, so that fixed-width integers can be
used as they are.
-/

namespace FirstMin

variable {α β : Type} [LE β] [LT β]

/-- `a`, scored `s`, is the first element of `l` of least score. -/
structure IsFirstMin (score : α → Option β) (l : List α) (a : α) (s : β) : Prop where
  split : ∃ l₁ l₂, l = l₁ ++ a :: l₂ ∧ ∀ b ∈ l₁, ∀ t, score b = some t → s < t
  score_eq : score a = some s
  le : ∀ b ∈ l, ∀ t, score b = some t → s ≤ t

variable {score : α → Option β}

/-- An element without a score changes nothing found so far. -/
theorem IsFirstMin.snoc_none {l : List α} {a x : α} {s : β} (h : IsFirstMin score l a s)
    (hx : score x = none) : IsFirstMin score (l ++ [x]) a s where
  split := by
    obtain ⟨l₁, l₂, rfl, hbefore⟩ := h.split
    exact ⟨l₁, l₂ ++ [x], by simp, hbefore⟩
  score_eq := h.score_eq
  le b hb t ht := by
    rcases List.mem_append.mp hb with hb | hb
    · exact h.le b hb t ht
    · rw [List.mem_singleton.mp hb, hx] at ht
      cases ht

/-- A scored element that does not beat the best so far leaves it the first of least score. -/
theorem IsFirstMin.snoc_le {l : List α} {a x : α} {s t : β} (h : IsFirstMin score l a s)
    (hx : score x = some t) (hst : s ≤ t) : IsFirstMin score (l ++ [x]) a s where
  split := by
    obtain ⟨l₁, l₂, rfl, hbefore⟩ := h.split
    exact ⟨l₁, l₂ ++ [x], by simp, hbefore⟩
  score_eq := h.score_eq
  le b hb u hu := by
    rcases List.mem_append.mp hb with hb | hb
    · exact h.le b hb u hu
    · rw [List.mem_singleton.mp hb, hx] at hu
      exact Option.some.inj hu ▸ hst

variable [Std.IsLinearOrder β] [Std.LawfulOrderLT β]

/-- The first element of least score is one: an element before it scores strictly more than the
least score, so it cannot be another first of least score. -/
theorem IsFirstMin.unique {l : List α} {a a' : α} {s s' : β} (h : IsFirstMin score l a s)
    (h' : IsFirstMin score l a' s') : a = a' ∧ s = s' := by
  obtain ⟨l₁, l₂, hl, hbefore⟩ := h.split
  obtain ⟨l₁', l₂', hl', hbefore'⟩ := h'.split
  have hss : s = s' := Std.le_antisymm (h.le a' (by rw [hl']; simp) s' h'.score_eq)
    (h'.le a (by rw [hl]; simp) s h.score_eq)
  subst hss
  refine ⟨?_, rfl⟩
  rcases List.append_eq_append_iff.mp (hl.symm.trans hl') with ⟨m, rfl, hm⟩ | ⟨m, rfl, hm⟩
  · -- the second split is the longer: `a` stands before `a'` unless they are one
    cases m with
    | nil => exact (List.cons.inj hm).1
    | cons x m =>
      obtain ⟨rfl, -⟩ := List.cons.inj hm
      exact absurd (hbefore' _ (by simp) s h.score_eq) (Std.lt_irrefl)
  · cases m with
    | nil => exact (List.cons.inj hm).1.symm
    | cons x m =>
      obtain ⟨rfl, -⟩ := List.cons.inj hm
      exact absurd (hbefore _ (by simp) s h'.score_eq) (Std.lt_irrefl)

/-- A scored element below every score so far is the new first of least score. -/
theorem IsFirstMin.snoc_lt {l : List α} {x : α} {t : β} (hx : score x = some t)
    (hlt : ∀ b ∈ l, ∀ u, score b = some u → t < u) : IsFirstMin score (l ++ [x]) x t where
  split := ⟨l, [], rfl, hlt⟩
  score_eq := hx
  le b hb u hu := by
    rcases List.mem_append.mp hb with hb | hb
    · exact Std.le_of_lt (hlt b hb u hu)
    · rw [List.mem_singleton.mp hb, hx] at hu
      exact Option.some.inj hu ▸ Std.le_refl t

variable [DecidableLT β]

/-- One element of the scan. -/
def step (score : α → Option β) (acc : Option (α × β)) (a : α) : Option (α × β) :=
  match score a, acc with
  | none, acc => acc
  | some s, none => some (a, s)
  | some s, some (b, t) => if s < t then some (a, s) else some (b, t)

/-- The scan over the list. -/
def firstMin (score : α → Option β) (l : List α) : Option (α × β) := l.foldl (step score) none

/-- What the scan has found after the elements `l`. -/
def Found (score : α → Option β) (l : List α) : Option (α × β) → Prop
  | none => ∀ a ∈ l, score a = none
  | some (a, s) => IsFirstMin score l a s

/-- **One step of the scan** keeps what it has found the first element of least score. -/
theorem found_step {l : List α} {acc : Option (α × β)} (h : Found score l acc) (x : α) :
    Found score (l ++ [x]) (step score acc x) := by
  cases hx : score x with
  | none =>
    cases acc with
    | none =>
      simp only [step, hx, Found]
      intro a ha
      rcases List.mem_append.mp ha with ha | ha
      · exact h a ha
      · rw [List.mem_singleton.mp ha, hx]
    | some p => simpa [step, hx, Found] using (h : IsFirstMin score l p.1 p.2).snoc_none hx
  | some t =>
    cases acc with
    | none =>
      -- the first scored element: nothing before it is scored
      simp only [step, hx, Found]
      exact IsFirstMin.snoc_lt hx fun b hb u hu => by rw [h b hb] at hu; cases hu
    | some p =>
      have hp : IsFirstMin score l p.1 p.2 := h
      simp only [step, hx]
      split_ifs with hlt
      · exact IsFirstMin.snoc_lt hx fun b hb u hu => Std.lt_of_lt_of_le hlt (hp.le b hb u hu)
      · exact hp.snoc_le hx (Std.not_lt.mp hlt)

/-- **The scan** finds the first element of least score. -/
theorem found_firstMin (l : List α) : Found score l (firstMin score l) := by
  -- induction from the right, the way the scan consumes the list
  induction l using List.reverseRecOn with
  | nil => intro a ha; cases ha
  | append_singleton l x ih =>
    rw [firstMin, List.foldl_append, List.foldl_cons, List.foldl_nil]
    exact found_step ih x

theorem firstMin_eq_none {l : List α} : firstMin score l = none ↔ ∀ a ∈ l, score a = none := by
  constructor
  · intro h
    have : Found score l (firstMin score l) := found_firstMin l
    rwa [h] at this
  · intro h
    cases hf : firstMin score l with
    | none => rfl
    | some p =>
      have hp : IsFirstMin score l p.1 p.2 := by
        have : Found score l (firstMin score l) := found_firstMin l
        rwa [hf] at this
      obtain ⟨l₁, l₂, heq, -⟩ := hp.split
      have := h p.1 (by rw [heq]; simp)
      rw [hp.score_eq] at this
      cases this

theorem firstMin_isFirstMin {l : List α} {a : α} {s : β} (h : firstMin score l = some (a, s)) :
    IsFirstMin score l a s := by
  have : Found score l (firstMin score l) := found_firstMin l
  rwa [h] at this

/-- The scan finds the first element of least score wherever there is one. -/
theorem firstMin_eq_of_isFirstMin {l : List α} {a : α} {s : β} (h : IsFirstMin score l a s) :
    firstMin score l = some (a, s) := by
  cases hf : firstMin score l with
  | none =>
    obtain ⟨l₁, l₂, hl, -⟩ := h.split
    have := firstMin_eq_none.mp hf a (by rw [hl]; simp)
    rw [h.score_eq] at this
    cases this
  | some p =>
    obtain ⟨rfl, rfl⟩ := (firstMin_isFirstMin hf).unique h
    rfl

/-! ### A scan from a sentinel -/

/-- One element of the scan as loops often write it: the best score so far starts at a sentinel,
and a scored element replaces the best only when it scores strictly below it. -/
def sentinelStep (score : α → Option β) (acc : Option α × β) (a : α) : Option α × β :=
  match score a with
  | none => acc
  | some s => if s < acc.2 then (some a, s) else acc

/-- **A scan from a sentinel** finds the first element of least score among those scoring below
the sentinel. -/
theorem foldl_sentinelStep (top : β) (l : List α) :
    (l.foldl (sentinelStep score) (none, top)).1 =
      (firstMin (fun a => (score a).filter fun s => decide (s < top)) l).map Prod.fst := by
  -- the loop's candidate and best score stand for what the scan of the filtered scores found,
  -- the best score being the sentinel while nothing is found
  let Tracks : Option α × β → Option (α × β) → Prop := fun acc found =>
    acc.1 = found.map Prod.fst ∧ acc.2 = ((found.map Prod.snd).getD top) ∧
      ∀ p ∈ found, p.2 < top
  have hstep : ∀ acc found (x : α), Tracks acc found →
      Tracks (sentinelStep score acc x)
        (step (fun a => (score a).filter fun s => decide (s < top)) found x) := by
    rintro acc found x ⟨h1, h2, h3⟩
    cases hx : score x with
    | none =>
      simp only [sentinelStep, step, hx, Option.filter_none]
      exact ⟨h1, h2, h3⟩
    | some s =>
      by_cases hs : s < top
      · simp only [sentinelStep, step, hx, Option.filter_some, hs, decide_true, if_true]
        cases found with
        | none =>
          simp only [Option.map_none, Option.getD_none] at h2
          simp only [h2, hs, if_true]
          exact ⟨rfl, rfl, fun p hp => by cases hp; exact hs⟩
        | some p =>
          simp only [Option.map_some, Option.getD_some] at h2
          by_cases hlt : s < p.2
          · simp only [h2, hlt, if_true]
            exact ⟨rfl, rfl, fun q hq => by cases hq; exact hs⟩
          · simp only [h2, hlt, if_false]
            exact ⟨h1, h2, h3⟩
      · -- a score at or above the sentinel is above every best score
        have hnot : ¬ s < acc.2 := fun hlt => by
          cases found with
          | none => simp only [Option.map_none, Option.getD_none] at h2; exact hs (h2 ▸ hlt)
          | some p =>
            simp only [Option.map_some, Option.getD_some] at h2
            exact hs (Std.lt_trans (h2 ▸ hlt) (h3 p rfl))
        simp only [sentinelStep, step, hx, Option.filter_some, hs, decide_false, if_false, hnot]
        exact ⟨h1, h2, h3⟩
  have hrun : ∀ (l : List α) acc found, Tracks acc found →
      Tracks (l.foldl (sentinelStep score) acc)
        (l.foldl (step fun a => (score a).filter fun s => decide (s < top)) found) := by
    intro l
    induction l with
    | nil => exact fun _ _ h => h
    | cons x l ih => exact fun acc found h => ih _ _ (hstep acc found x h)
  exact (hrun l (none, top) none ⟨rfl, rfl, fun _ h => by cases h⟩).1

end FirstMin
