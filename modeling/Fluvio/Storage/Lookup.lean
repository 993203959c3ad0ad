import Fluvio.Storage.Replica
import Fluvio.Lib.Bits
import Mathlib.Data.List.Chain

/-!
Finding the segment that holds an offset (`segments.rs`: `SegmentList::find_segment`).

`find_segment` never compares the offset with the end offset of the segment it returns:
it trusts the cached bounds and takes the last segment whose base is not above the
offset. That is right when the segments follow each other without a gap
(`SegmentList.findSegment_contiguous`), and wrong once a segment in the middle has
been removed (`middleRemoved_findSegment_outside`).
-/

namespace Fluvio.Storage

/-- `s` holds offset `o`. -/
def ReadSegment.Holds (s : ReadSegment) (o : Int64) : Prop := s.baseOffset ≤ o ∧ o < s.endOffset

instance (s : ReadSegment) (o : Int64) : Decidable (s.Holds o) := inferInstanceAs (Decidable (_ ∧ _))

/-- Segments one after the other: each holds an offset, each starts where the previous one
ended, and none starts below zero. -/
structure Contiguous (segments : List ReadSegment) : Prop where
  nonempty : ∀ s ∈ segments, s.baseOffset.toInt < s.endOffset.toInt
  nonneg : ∀ s ∈ segments, 0 ≤ s.baseOffset.toInt
  chain : segments.IsChain fun a b => a.endOffset = b.baseOffset

namespace Contiguous

theorem tail {s : ReadSegment} {rest : List ReadSegment} (h : Contiguous (s :: rest)) : Contiguous rest :=
  ⟨fun t ht => h.nonempty t (List.mem_cons_of_mem s ht), fun t ht => h.nonneg t (List.mem_cons_of_mem s ht),
    h.chain.tail⟩

/-- Every later segment starts at or after the end of the first. -/
theorem end_le_base : ∀ {s : ReadSegment} {rest : List ReadSegment}, Contiguous (s :: rest) →
    ∀ t ∈ rest, s.endOffset.toInt ≤ t.baseOffset.toInt
  | _, [], _ => by simp
  | s, u :: rest, h => by
    intro t ht
    have hsu : s.endOffset = u.baseOffset := (List.isChain_cons_cons.mp h.chain).1
    rcases List.mem_cons.mp ht with rfl | ht
    · rw [hsu]
    · have hu := h.tail.nonempty t (List.mem_cons_of_mem _ ht)
      have hnext := end_le_base h.tail t ht
      have hu' := h.tail.nonempty u List.mem_cons_self
      rw [hsu]
      omega

/-- The first segment holds the smallest base. -/
theorem base_le {s : ReadSegment} {rest : List ReadSegment} (h : Contiguous (s :: rest)) :
    ∀ t ∈ s :: rest, s.baseOffset.toInt ≤ t.baseOffset.toInt := by
  intro t ht
  rcases List.mem_cons.mp ht with rfl | ht
  · exact le_refl _
  · have := h.end_le_base t ht
    have := h.nonempty s List.mem_cons_self
    omega

/-- The last segment holds the largest end. -/
theorem end_le_last : ∀ {segments : List ReadSegment} {last : ReadSegment}, Contiguous segments →
    segments.getLast? = some last → ∀ t ∈ segments, t.endOffset.toInt ≤ last.endOffset.toInt
  | [], _, _, h => by simp at h
  | [s], last, _, h => by
    simp only [List.getLast?_singleton, Option.some.injEq] at h
    subst h
    simp
  | s :: u :: rest, last, h, hlast => by
    intro t ht
    rw [List.getLast?_cons_cons] at hlast
    rcases List.mem_cons.mp ht with rfl | ht
    · have hu := end_le_last h.tail hlast u List.mem_cons_self
      have := h.end_le_base u List.mem_cons_self
      have := h.tail.nonempty u List.mem_cons_self
      omega
    · exact end_le_last h.tail hlast t ht

end Contiguous

/-! ### The cached bounds -/

/-- `update_min_max` over the rest of contiguous segments, with the smallest base `m` found
and the previous segment ending at `e`: the smallest base stays, the end moves to the last. -/
theorem foldl_minMaxStep : ∀ {segments : List ReadSegment} {m e : Int64}, Contiguous segments →
    0 ≤ m.toInt → (∀ t ∈ segments, m.toInt ≤ t.baseOffset.toInt) →
    (∀ t, segments.head? = some t → e = t.baseOffset) →
    segments.foldl minMaxStep (m, e) = (m, (segments.getLast?.map ReadSegment.endOffset).getD e)
  | [], _, _, _, _, _, _ => rfl
  | t :: rest, m, e, h, hm, hle, he => by
    have hte : e = t.baseOffset := he t rfl
    have hnot : ¬ (m < 0 || t.baseOffset < m) = true := by
      have := hle t List.mem_cons_self
      simp only [Bool.or_eq_true, decide_eq_true_eq, Int64.lt_iff_toInt_lt, Int64.toInt_zero]
      omega
    have hlt : e < t.endOffset := by
      rw [hte, Int64.lt_iff_toInt_lt]
      exact h.nonempty t List.mem_cons_self
    have hstep : minMaxStep (m, e) t = (m, t.endOffset) := by
      simp only [minMaxStep, hnot, hlt, Bool.false_eq_true, ↓reduceIte]
    rw [List.foldl_cons, hstep, foldl_minMaxStep h.tail hm (fun u hu => hle u (List.mem_cons_of_mem t hu))]
    · cases rest with
      | nil => rfl
      | cons u rest =>
        rw [List.getLast?_cons_cons, List.getLast?_eq_some_getLast (List.cons_ne_nil u rest)]
        rfl
    · intro u hu
      cases rest with
      | nil => simp at hu
      | cons u' rest =>
        simp only [List.head?_cons, Option.some.injEq] at hu
        subst hu
        exact (List.isChain_cons_cons.mp h.chain).1

/-- **The cached bounds of contiguous segments**: the first base and the last end. -/
theorem minMax_contiguous {s : ReadSegment} {rest : List ReadSegment} {last : ReadSegment}
    (h : Contiguous (s :: rest)) (hlast : (s :: rest).getLast? = some last) :
    minMax (s :: rest) = (s.baseOffset, last.endOffset) := by
  have hbase := h.nonneg s List.mem_cons_self
  have hfirst : minMaxStep (-1, 0) s = (s.baseOffset, s.endOffset) := by
    have hend := h.nonempty s List.mem_cons_self
    have hneg : ((-1 : Int64) < 0 || s.baseOffset < -1) = true := by
      simp only [Bool.or_eq_true, decide_eq_true_eq]
      exact Or.inl (by decide)
    have hpos : (0 : Int64) < s.endOffset := by
      rw [Int64.lt_iff_toInt_lt, Int64.toInt_zero]
      omega
    simp only [minMaxStep, hneg, if_true, hpos]
  rw [minMax, List.foldl_cons, hfirst, foldl_minMaxStep h.tail hbase]
  · cases rest with
    | nil =>
      simp only [List.getLast?_singleton, Option.some.injEq] at hlast
      subst hlast
      rfl
    | cons u rest =>
      rw [List.getLast?_cons_cons] at hlast
      simp [hlast]
  · intro t ht
    exact h.base_le t (List.mem_cons_of_mem s ht)
  · intro t ht
    cases rest with
    | nil => simp at ht
    | cons u rest =>
      simp only [List.head?_cons, Option.some.injEq] at ht
      subst ht
      exact (List.isChain_cons_cons.mp h.chain).1

/-! ### The range query -/

/-- **In contiguous segments the last one starting at or before `o` holds it**, when `o` lies
between the first base and the last end. Induction on the segments. -/
theorem getLast?_filter_contiguous {o : Int64} : ∀ {s : ReadSegment} {rest : List ReadSegment},
    Contiguous (s :: rest) → s.baseOffset.toInt ≤ o.toInt →
    (∀ last, (s :: rest).getLast? = some last → o.toInt < last.endOffset.toInt) →
    ((s :: rest).filter fun t => decide (t.baseOffset ≤ o)).getLast? =
      (s :: rest).find? (fun t => decide (t.Holds o)) ∧
    ((s :: rest).find? fun t => decide (t.Holds o)).isSome
  | s, [], _, hbase, hlast => by
    have hend := hlast s rfl
    have hholds : s.Holds o := by
      simp only [ReadSegment.Holds, Int64.le_iff_toInt_le, Int64.lt_iff_toInt_lt]
      exact ⟨hbase, hend⟩
    have hle : s.baseOffset ≤ o := Int64.le_iff_toInt_le.mpr hbase
    simp [hle, hholds]
  | s, u :: rest, h, hbase, hlast => by
    by_cases hin : o.toInt < s.endOffset.toInt
    · -- `s` holds `o`, and every later segment starts after it
      have hholds : s.Holds o := by
        simp only [ReadSegment.Holds, Int64.le_iff_toInt_le, Int64.lt_iff_toInt_lt]
        exact ⟨hbase, hin⟩
      have hle : s.baseOffset ≤ o := Int64.le_iff_toInt_le.mpr hbase
      have hafter : ((u :: rest).filter fun t => decide (t.baseOffset ≤ o)) = [] := by
        rw [List.filter_eq_nil_iff]
        intro t ht
        have := h.end_le_base t ht
        simp only [decide_eq_true_eq, Int64.le_iff_toInt_le]
        omega
      rw [List.filter_cons_of_pos (by simpa using hle), hafter]
      simp [hholds]
    · -- `o` lies past `s`: the answer is that of the rest, which starts where `s` ends
      have hsu : s.endOffset = u.baseOffset := (List.isChain_cons_cons.mp h.chain).1
      have hnot : ¬ s.Holds o := by
        simp only [ReadSegment.Holds, Int64.le_iff_toInt_le, Int64.lt_iff_toInt_lt]
        omega
      have hle : s.baseOffset ≤ o := Int64.le_iff_toInt_le.mpr hbase
      obtain ⟨heq, hsome⟩ := getLast?_filter_contiguous h.tail (by rw [← hsu]; omega)
        (fun last hl => hlast last (by rw [List.getLast?_cons_cons]; exact hl))
      have hne : ((u :: rest).filter fun t => decide (t.baseOffset ≤ o)) ≠ [] := by
        intro hnil
        rw [hnil, List.getLast?_nil] at heq
        rw [← heq] at hsome
        simp at hsome
      have hfind : (s :: u :: rest).find? (fun t => decide (t.Holds o)) =
          (u :: rest).find? (fun t => decide (t.Holds o)) := List.find?_cons_of_neg (by simpa using hnot)
      rw [List.filter_cons_of_pos (by simpa using hle), List.getLast?_cons_of_ne_nil hne, heq, hfind]
      exact ⟨rfl, hsome⟩

/-- Contiguous segments hold `o` exactly when it lies between the first base and the last end. -/
theorem find?_holds_isSome_iff {s : ReadSegment} {rest : List ReadSegment} {last : ReadSegment} {o : Int64}
    (h : Contiguous (s :: rest)) (hlast : (s :: rest).getLast? = some last) :
    ((s :: rest).find? fun t => decide (t.Holds o)).isSome ↔
      s.baseOffset.toInt ≤ o.toInt ∧ o.toInt < last.endOffset.toInt := by
  constructor
  · intro hsome
    obtain ⟨t, ht⟩ := Option.isSome_iff_exists.mp hsome
    have hholds : t.Holds o := by simpa using List.find?_some ht
    have hmem := List.mem_of_find?_eq_some ht
    have hbase := h.base_le t hmem
    have hend := h.end_le_last hlast t hmem
    simp only [ReadSegment.Holds, Int64.le_iff_toInt_le, Int64.lt_iff_toInt_lt] at hholds
    omega
  · rintro ⟨hbase, hend⟩
    refine (getLast?_filter_contiguous h hbase fun l hl => ?_).2
    rw [hlast, Option.some.injEq] at hl
    rw [← hl]
    exact hend

/-- **The range query of `find_segment` on contiguous segments**: with a lower bound at or
below the first base, and `o` between the first base and the last end, the last segment whose
base is in `[lo, o]` is the one that holds `o`. -/
theorem rangeLast_contiguous {s : ReadSegment} {rest : List ReadSegment} {last : ReadSegment} {lo o : Int64}
    (h : Contiguous (s :: rest)) (hlast : (s :: rest).getLast? = some last)
    (hlo : lo.toInt ≤ s.baseOffset.toInt) (hbase : s.baseOffset.toInt ≤ o.toInt)
    (hend : o.toInt < last.endOffset.toInt) :
    rangeLast (s :: rest) lo o = .ok ((s :: rest).find? fun t => decide (t.Holds o)) := by
  have hle : ¬ o < lo := by
    rw [Int64.lt_iff_toInt_lt]
    omega
  -- every base is at least the first, so the lower bound of the range filters nothing out
  have hfilter : ((s :: rest).filter fun t => decide (lo ≤ t.baseOffset) && decide (t.baseOffset ≤ o)) =
      (s :: rest).filter fun t => decide (t.baseOffset ≤ o) := by
    apply List.filter_congr
    intro t ht
    have := h.base_le t ht
    have hlot : lo ≤ t.baseOffset := by
      rw [Int64.le_iff_toInt_le]
      omega
    simp [hlot]
  rw [rangeLast, if_neg hle, hfilter,
    (getLast?_filter_contiguous h hbase fun l hl => by rw [hlast, Option.some.injEq] at hl; rw [← hl]; exact hend).1]

/-! ### `find_segment` -/

/-- The cached bounds of a list of contiguous segments are its first base and last end. -/
theorem SegmentList.bounds_contiguous {list : SegmentList} {s : ReadSegment} {rest : List ReadSegment}
    {last : ReadSegment} (hseg : list.segments = s :: rest) (h : Contiguous (s :: rest))
    (hlast : (s :: rest).getLast? = some last) :
    list.minOffset = s.baseOffset ∧ list.maxOffset = last.endOffset := by
  have hcached := list.cached
  rw [hseg, minMax_contiguous h hlast, Prod.mk.injEq] at hcached
  exact ⟨hcached.1.symm, hcached.2.symm⟩

/-- Strictly between the first base `m` and the last end `e`, the lower bound
`offset - max_offset + min_offset + 1` of `find_segment` does not wrap and is at most `m`. -/
theorem lowerBound_le {o m e : Int64} (hm : 0 ≤ m.toInt) (hmo : m.toInt < o.toInt) (hoe : o.toInt < e.toInt) :
    (o - e + m + 1).toInt ≤ m.toInt := by
  have he := Int64.toInt_lt e
  have hsub : (o - e).toInt = o.toInt - e.toInt := Bits.toInt_sub_of_range (by omega) (by omega)
  have hadd : (o - e + m).toInt = (o - e).toInt + m.toInt :=
    Bits.toInt_add_of_range (by omega) (by omega)
  have hone : (o - e + m + 1).toInt = (o - e + m).toInt + (1 : Int64).toInt :=
    Bits.toInt_add_of_range (by rw [hadd, Int64.toInt_one]; omega) (by rw [hadd, Int64.toInt_one]; omega)
  rw [Int64.toInt_one] at hone
  omega

/-- **`find_segment` on contiguous segments returns the segment that holds the offset.** -/
theorem SegmentList.findSegment_eq_find? {list : SegmentList} (hc : Contiguous list.segments)
    (hne : list.segments ≠ []) (o : Int64) :
    list.findSegment o = .ok ((list.segments.find? fun t => decide (t.Holds o)).map fun t => (t.baseOffset, t)) := by
  obtain ⟨s, rest, hseg⟩ := List.exists_cons_of_ne_nil hne
  obtain ⟨last, hlast⟩ : ∃ last, (s :: rest).getLast? = some last :=
    ⟨_, List.getLast?_eq_some_getLast (List.cons_ne_nil s rest)⟩
  rw [hseg] at hc
  obtain ⟨hmin, hmax⟩ := list.bounds_contiguous hseg hc hlast
  have hs := hc.nonempty s List.mem_cons_self
  have hs0 := hc.nonneg s List.mem_cons_self
  have hslast := hc.end_le_last hlast s List.mem_cons_self
  have hiff := find?_holds_isSome_iff (o := o) hc hlast
  unfold SegmentList.findSegment
  rw [hseg, hmin, hmax]
  split_ifs with hbelow hat habove
  · -- below the first base: no segment holds `o`
    rw [Int64.lt_iff_toInt_lt] at hbelow
    have hnone : (s :: rest).find? (fun t => decide (t.Holds o)) = none := by
      rw [← Option.not_isSome_iff_eq_none, hiff]
      omega
    rw [hnone]
    rfl
  · -- at the first base: the range `[o, o]`
    subst hat
    rw [rangeLast_contiguous hc hlast (le_refl _) (le_refl _) (by omega)]
    rfl
  · -- from the last end on: no segment holds `o`
    rw [Int64.le_iff_toInt_le] at habove
    have hnone : (s :: rest).find? (fun t => decide (t.Holds o)) = none := by
      rw [← Option.not_isSome_iff_eq_none, hiff]
      omega
    rw [hnone]
    rfl
  · -- strictly inside: the range `[o - max + min + 1, o]`
    rw [Int64.lt_iff_toInt_lt] at hbelow
    rw [Int64.le_iff_toInt_le] at habove
    have hne' : s.baseOffset.toInt ≠ o.toInt := fun h' => hat (Int64.toInt_inj.mp h'.symm)
    rw [rangeLast_contiguous hc hlast (lowerBound_le hs0 (by omega) (by omega)) (by omega) (by omega)]
    rfl

/-- A nonempty list of contiguous segments holds `o` exactly when it lies between its cached
bounds. -/
theorem SegmentList.find?_holds_isSome_iff {list : SegmentList} (hc : Contiguous list.segments)
    (hne : list.segments ≠ []) (o : Int64) :
    (list.segments.find? fun t => decide (t.Holds o)).isSome ↔ list.minOffset ≤ o ∧ o < list.maxOffset := by
  obtain ⟨s, rest, hseg⟩ := List.exists_cons_of_ne_nil hne
  obtain ⟨last, hlast⟩ : ∃ last, (s :: rest).getLast? = some last :=
    ⟨_, List.getLast?_eq_some_getLast (List.cons_ne_nil s rest)⟩
  rw [hseg] at hc ⊢
  obtain ⟨hmin, hmax⟩ := list.bounds_contiguous hseg hc hlast
  rw [Storage.find?_holds_isSome_iff hc hlast, hmin, hmax, Int64.le_iff_toInt_le, Int64.lt_iff_toInt_lt]

/-- **`find_segment` on contiguous segments.** Whatever it returns holds the offset, under its
own base, and it returns a segment exactly when the offset lies between the cached bounds. -/
theorem SegmentList.findSegment_contiguous {list : SegmentList} (hc : Contiguous list.segments)
    (hne : list.segments ≠ []) (o : Int64) :
    (∀ b s, list.findSegment o = .ok (some (b, s)) → s.baseOffset = b ∧ b ≤ o ∧ o < s.endOffset) ∧
    ((∃ p, list.findSegment o = .ok (some p)) ↔ list.minOffset ≤ o ∧ o < list.maxOffset) := by
  rw [list.findSegment_eq_find? hc hne o]
  refine ⟨fun b s h => ?_, ?_⟩
  · obtain ⟨t, ht, hts⟩ := Option.map_eq_some_iff.mp (Except.ok.inj h)
    obtain ⟨rfl, rfl⟩ := Prod.mk.injEq _ _ _ _ ▸ hts
    have hholds : t.Holds o := by simpa using List.find?_some ht
    exact ⟨rfl, hholds⟩
  · rw [← list.find?_holds_isSome_iff hc hne o, Option.isSome_iff_exists]
    constructor
    · rintro ⟨p, hp⟩
      obtain ⟨t, ht, -⟩ := Option.map_eq_some_iff.mp (Except.ok.inj hp)
      exact ⟨t, ht⟩
    · rintro ⟨t, ht⟩
      exact ⟨(t.baseOffset, t), by rw [ht]; rfl⟩

/-- Two segments one after the other. -/
def twoSegments : SegmentList := SegmentList.ofSegments [⟨0, 10⟩, ⟨10, 20⟩]

/-- In two contiguous segments, offset `15` is found in the second. -/
theorem twoSegments_findSegment :
    Contiguous twoSegments.segments ∧ twoSegments.segments ≠ [] ∧
      twoSegments.findSegment 15 = .ok (some (10, ⟨10, 20⟩)) ∧
      ((∃ p, twoSegments.findSegment 15 = .ok (some p)) ↔
        twoSegments.minOffset ≤ 15 ∧ 15 < twoSegments.maxOffset) := by
  have hc : Contiguous twoSegments.segments := ⟨by decide, by decide, by decide⟩
  have hne : twoSegments.segments ≠ [] := by decide
  exact ⟨hc, hne, by decide, (SegmentList.findSegment_contiguous hc hne 15).2⟩

/-- Three contiguous segments, added one after the other. -/
def threeSegments : SegmentList :=
  (((SegmentList.new.addSegment ⟨0, 10⟩).1.addSegment ⟨10, 20⟩).1.addSegment ⟨20, 30⟩).1

/-- Once the middle segment is removed, `find_segment 15` returns the first segment, which
ends at `10`. -/
theorem middleRemoved_findSegment_outside :
    threeSegments.removeSegment 10 = some ((⟨10, 20⟩, 0), SegmentList.ofSegments [⟨0, 10⟩, ⟨20, 30⟩]) ∧
      (SegmentList.ofSegments [⟨0, 10⟩, ⟨20, 30⟩]).findSegment 15 = .ok (some (0, ⟨0, 10⟩)) ∧
      ¬ (15 : Int64) < (⟨0, 10⟩ : ReadSegment).endOffset := by
  decide

end Fluvio.Storage
