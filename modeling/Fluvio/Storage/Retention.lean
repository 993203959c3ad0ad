import Fluvio.Storage.Cleaner
import Fluvio.Storage.Lookup
import Fluvio.Replication.KvLog

/-!
The write path and the cleaner's size check over whole runs (`replica.rs`, `segments.rs`,
`cleaner.rs`), and where `read_records` then reads.

`write_recordset` checks that every batch fits a segment before it writes any. A batch that
fits a segment but not the active one rolls the active one over; so the segment a roll-over
adds to the previous ones holds an offset, and the new active segment starts at its end.
`Cleaner::enforce_size` takes the first bases of the list with `find_first` and removes them
one by one, each removal in the two parts of `SharedSegments::remove_segment`, while the
writing task goes on. Along every run the previous segments stay contiguous and end where the
active one starts (`FileReplica.Inv`), and `find_segment` returns the segment that holds an
offset.

* `SizeCleaner.read_holds` — along every interleaving of the writing task and the size check,
  `read_records` never panics on the range of the segment map, and a previous segment it reads
  from holds the offset asked for.
* `SizeCleaner.read_complete` — when no removal is half done, every offset from the log start
  offset to the log end offset is read from a segment, and `OffsetEvicted` comes only below
  the log start offset.

The cleaner's time-to-live check (`enforce_ttl`) is not modelled: the segments it removes are
those whose files are old, which the model does not see, and one removed from the middle of
the list leaves a gap (`middleRemoved_findSegment_outside`).
-/

namespace Fluvio.Storage

open Fluvio.Protocol

/-- A call of the write path that returned, with a value or an error: it did not panic and
did not run forever. -/
def Returned {α : Type} : Except Failure α → Prop
  | .ok _ => True
  | .error (.error _) => True
  | .error _ => False

@[simp] theorem returned_error {α : Type} (f : Failure) :
    Returned (.error f : Except Failure α) ↔ ∃ e, f = .error e := by
  cases f <;> simp [Returned]

/-! ### What an append that returns does -/

section Append

variable {R : Type} [Crc32c] [Encoder R]

/-- `write_batch` returns an error only for a batch below the file's base offset. -/
theorem MutFileRecords.writeBatch_error_lt {log : MutFileRecords} {batch : Batch R} {e : StorageError}
    (h : (log.writeBatch batch).1 = .error (.error e)) : batch.baseOffset < log.baseOffset := by
  unfold MutFileRecords.writeBatch at h
  split at h
  · assumption
  · repeat' split at h
    all_goals simp at h

/-- A batch that is not written did not fit: its size and the file's length pass the maximum. -/
theorem MutFileRecords.writeBatch_notWritten {log : MutFileRecords} {batch : Batch R} {n p : Nat}
    (h : (log.writeBatch batch).1 = .ok (false, n, p)) :
    Encoder.writeSize batch = some n ∧ log.maxLen < n % 2 ^ 32 + log.bytes.length := by
  unfold MutFileRecords.writeBatch at h
  split at h
  · simp at h
  · split at h
    · simp at h
    · rename_i batchLen hsize
      split_ifs at h with hwrap hfull
      · simp only [Except.ok.injEq, Prod.mk.injEq] at h
        obtain ⟨-, rfl, -⟩ := h
        exact ⟨hsize, hfull⟩
      · split at h
        · simp at h
        · split_ifs at h
          simp at h

/-- `append_batch` reports a batch as not written only when the log file did not take it. -/
theorem MutableSegment.appendBatch_full {seg : MutableSegment} {batch : Batch R}
    (h : (seg.appendBatch batch).1 = .ok false) :
    ∃ n, Encoder.writeSize batch = some n ∧ seg.msgLog.maxLen < n % 2 ^ 32 + seg.msgLog.bytes.length := by
  unfold MutableSegment.appendBatch at h
  split_ifs at h
  dsimp only at h
  split at h
  · simp at h
  · rename_i n p msgLog hwrite
    have hfull : (seg.msgLog.writeBatch ({ batch with baseOffset := seg.endOffset } : Batch R)).1 =
        .ok (false, n, p) := by
      rw [hwrite]
    -- the file sees the batch with its base offset set, whose size is the batch's
    obtain ⟨hsize, hlt⟩ := MutFileRecords.writeBatch_notWritten hfull
    exact ⟨n, hsize, hlt⟩
  · split at h <;> simp at h

/-- The errors `append_batch` returns: an empty batch, or an end offset below the log file's
base offset. -/
theorem MutableSegment.appendBatch_error {seg : MutableSegment} {batch : Batch R} {e : StorageError}
    (h : (seg.appendBatch batch).1 = .error (.error e)) :
    batch.recordsLen = 0 ∨ seg.endOffset < seg.msgLog.baseOffset := by
  unfold MutableSegment.appendBatch at h
  split_ifs at h with h0
  · exact .inl h0
  · right
    dsimp only at h
    split at h
    · rename_i e' msgLog hwrite
      simp only [Except.error.injEq] at h
      subst h
      have herr : (seg.msgLog.writeBatch ({ batch with baseOffset := seg.endOffset } : Batch R)).1 =
          .error (.error e) := by
        rw [hwrite]
      -- elaborated from `herr` alone: unifying its conclusion with the goal first is slow
      have hlt := MutFileRecords.writeBatch_error_lt herr
      exact hlt
    · simp at h
    · -- the index only panics
      split at h
      · rename_i f index hidx
        simp only [Except.error.injEq] at h
        subst h
        unfold MutLogIndex.writeIndex at hidx
        split_ifs at hidx <;> simp at hidx
      · simp at h

/-- **What `append_batch` does when it returns**, on a segment whose log file starts at or
below its end offset: it refuses an empty batch, leaves the segment as it is when the batch
does not fit the log file, or appends the batch's encoding and moves the end offset past its
records. -/
theorem MutableSegment.appendBatch_returned {seg : MutableSegment} {batch : Batch R}
    (hlog : ¬ seg.endOffset < seg.msgLog.baseOffset) (hret : Returned (seg.appendBatch batch).1) :
    (batch.recordsLen = 0 ∧ seg.appendBatch batch = (.error (.error .emptyBatch), seg, batch)) ∨
    (batch.recordsLen ≠ 0 ∧
      (∃ n, Encoder.writeSize batch = some n ∧ seg.msgLog.maxLen < n % 2 ^ 32 + seg.msgLog.bytes.length) ∧
      seg.appendBatch batch = (.ok false, seg, { batch with baseOffset := seg.endOffset })) ∨
    (batch.recordsLen ≠ 0 ∧ ∃ bytes index,
      seg.appendBatch batch = (.ok true,
        { seg with
          msgLog := { seg.msgLog with bytes := seg.msgLog.bytes ++ bytes }
          index
          endOffset := seg.endOffset + Int64.ofNat batch.recordsLen },
        { batch with baseOffset := seg.endOffset })) := by
  rcases MutableSegment.appendBatch_cases seg batch with
    hempty | ⟨h0, hA⟩ | ⟨h0, bytes, index, -, -, hA⟩ | ⟨h0, f, seg', hA, -⟩
  · exact .inl hempty
  · exact .inr (.inl ⟨h0, MutableSegment.appendBatch_full (by rw [hA]), hA⟩)
  · exact .inr (.inr ⟨h0, bytes, index, hA⟩)
  · -- an error that returns is one of the two `appendBatch_error` names, and neither applies
    rw [hA] at hret
    cases f with
    | error e =>
      rcases MutableSegment.appendBatch_error (e := e) (by rw [hA]) with h0' | hlt
      · exact absurd h0' h0
      · exact absurd hlt hlog
    | panic msg => exact hret.elim
    | diverge => exact hret.elim

end Append

/-! ### The segments of a replica -/

/-- A segment placed after segments that all start below it goes at the end of the map. -/
theorem insertSegment_of_lt {seg : ReadSegment} :
    ∀ {segments : List ReadSegment}, (∀ s ∈ segments, s.baseOffset < seg.baseOffset) →
      insertSegment seg segments = segments ++ [seg]
  | [], _ => rfl
  | s :: rest, h => by
    have hlt := h s List.mem_cons_self
    have hnot : ¬ seg.baseOffset < s.baseOffset := fun h' => Int64.lt_asymm hlt h'
    have hne : seg.baseOffset ≠ s.baseOffset := fun h' => Int64.lt_irrefl (h' ▸ hlt)
    rw [insertSegment, if_neg hnot, if_neg hne,
      insertSegment_of_lt fun t ht => h t (List.mem_cons_of_mem s ht), List.cons_append]

/-- A segment that holds an offset, placed where contiguous segments end, keeps them contiguous. -/
theorem Contiguous.snoc {segments : List ReadSegment} {seg : ReadSegment} (h : Contiguous segments)
    (habuts : ∀ last ∈ segments.getLast?, last.endOffset = seg.baseOffset)
    (hnonneg : 0 ≤ seg.baseOffset.toInt) (hnonempty : seg.baseOffset.toInt < seg.endOffset.toInt) :
    Contiguous (segments ++ [seg]) where
  nonempty t ht := by
    rcases List.mem_append.mp ht with ht | ht
    · exact h.nonempty t ht
    · rw [List.mem_singleton.mp ht]
      exact hnonempty
  nonneg t ht := by
    rcases List.mem_append.mp ht with ht | ht
    · exact h.nonneg t ht
    · rw [List.mem_singleton.mp ht]
      exact hnonneg
  chain := h.chain.append (List.isChain_singleton seg) fun x hx y hy => by
    rw [List.head?_singleton, Option.mem_some_iff] at hy
    rw [← hy]
    exact habuts x hx

/-- The segments of a replica: the previous ones contiguous and ending where the active one
starts; the active one's log file at its base and as large as a segment may be, and the active
one holding an offset once its file holds a byte, unless the replica is short-circuited. -/
structure FileReplica.Inv (r : FileReplica) : Prop where
  contiguous : Contiguous r.prevSegments.list.segments
  abuts : ∀ last ∈ r.prevSegments.list.segments.getLast?, last.endOffset = r.activeSegment.baseOffset
  base_nonneg : 0 ≤ r.activeSegment.baseOffset.toInt
  base_le_end : r.activeSegment.baseOffset.toInt ≤ r.activeSegment.endOffset.toInt
  filled : r.shortCircuit = false → r.activeSegment.msgLog.bytes ≠ [] →
    r.activeSegment.baseOffset.toInt < r.activeSegment.endOffset.toInt
  logBase : r.activeSegment.msgLog.baseOffset = r.activeSegment.baseOffset
  maxLen : r.activeSegment.msgLog.maxLen = r.maxSegmentSize
  segmentMax : r.maxSegmentSize < 2 ^ 32

/-- What a write does to the previous segments: it adds segments after them, and when it adds
any it stores the list's smallest base in the atomic. -/
structure FileReplica.Rolls (r r' : FileReplica) : Prop where
  segments : r.prevSegments.list.segments <+: r'.prevSegments.list.segments
  stored : r'.prevSegments = r.prevSegments ∨ r'.prevSegments.minOffset = r'.prevSegments.list.minOffset
  maxSegmentSize : r'.maxSegmentSize = r.maxSegmentSize

namespace FileReplica

variable {r r' r'' : FileReplica}

theorem Rolls.of_prevSegments (hprev : r'.prevSegments = r.prevSegments)
    (hmax : r'.maxSegmentSize = r.maxSegmentSize) : r.Rolls r' :=
  ⟨hprev ▸ List.prefix_refl _, .inl hprev, hmax⟩

theorem Rolls.refl (r : FileReplica) : r.Rolls r := .of_prevSegments rfl rfl

theorem Rolls.trans (h : r.Rolls r') (h' : r'.Rolls r'') : r.Rolls r'' where
  segments := h.segments.trans h'.segments
  stored := by
    rcases h'.stored with heq | hmin
    · rcases h.stored with heq' | hmin'
      · exact .inl (heq.trans heq')
      · exact .inr (by rw [heq]; exact hmin')
    · exact .inr hmin
  maxSegmentSize := h'.maxSegmentSize.trans h.maxSegmentSize

/-- A new replica: no previous segment, and an empty active one at the base offset. -/
theorem Inv.create {baseOffset : Int64} {maxRequestSize maxSegmentSize : Nat}
    (hbase : 0 ≤ baseOffset.toInt) (hmax : maxSegmentSize < 2 ^ 32) :
    (FileReplica.create baseOffset maxRequestSize maxSegmentSize).Inv where
  contiguous := ⟨fun _ h => (nomatch h), fun _ h => (nomatch h), List.isChain_nil⟩
  abuts _ h := nomatch h
  base_nonneg := hbase
  base_le_end := le_refl _
  filled _ hne := absurd rfl hne
  logBase := rfl
  maxLen := rfl
  segmentMax := hmax

/-- An error short-circuits the replica and leaves its segments as they are. -/
theorem Inv.failWith (h : r.Inv) (f : Failure) : (r.failWith f).Inv := by
  cases f with
  | error e => exact { h with filled := fun hsc => by simp [FileReplica.failWith] at hsc }
  | panic msg => exact h
  | diverge => exact h

/-- A batch appended to the active segment: it moves the log end offset past its records. -/
theorem Inv.append (h : r.Inv) (bytes : List UInt8) (index : MutLogIndex) {n : Nat} (hn : n ≠ 0)
    (hleo : r.getLeo.toInt + n < 2 ^ 63) :
    ({ r with activeSegment := { r.activeSegment with
        msgLog := { r.activeSegment.msgLog with bytes := r.activeSegment.msgLog.bytes ++ bytes }
        index
        endOffset := r.activeSegment.endOffset + Int64.ofNat n } } : FileReplica).Inv ∧
    (({ r with activeSegment := { r.activeSegment with
        msgLog := { r.activeSegment.msgLog with bytes := r.activeSegment.msgLog.bytes ++ bytes }
        index
        endOffset := r.activeSegment.endOffset + Int64.ofNat n } } : FileReplica).getLeo.toInt =
      r.getLeo.toInt + n) := by
  have hend : (r.activeSegment.endOffset + Int64.ofNat n).toInt = r.activeSegment.endOffset.toInt + n :=
    Bits.toInt_add_ofNat (by have := h.base_nonneg; have := h.base_le_end; omega) hleo
  have hpos : 0 < n := Nat.pos_of_ne_zero hn
  refine ⟨{ h with base_le_end := ?_, filled := fun _ _ => ?_ }, hend⟩
  · change r.activeSegment.baseOffset.toInt ≤ (r.activeSegment.endOffset + Int64.ofNat n).toInt
    have := h.base_le_end
    omega
  · change r.activeSegment.baseOffset.toInt < (r.activeSegment.endOffset + Int64.ofNat n).toInt
    have := h.base_le_end
    omega

/-- **A roll-over keeps the segments contiguous**: the active segment, holding an offset, goes
after the previous ones, and the new active segment starts where it ends. -/
theorem Inv.rollOver (h : r.Inv)
    (hfilled : r.activeSegment.baseOffset.toInt < r.activeSegment.endOffset.toInt) :
    r.rollOver.Inv ∧ r.Rolls r.rollOver := by
  have hbelow : ∀ s ∈ r.prevSegments.list.segments, s.baseOffset < r.activeSegment.baseOffset := by
    intro s hs
    obtain ⟨last, hlast⟩ : ∃ last, r.prevSegments.list.segments.getLast? = some last :=
      ⟨_, List.getLast?_eq_some_getLast (List.ne_nil_of_mem hs)⟩
    have hend := h.contiguous.end_le_last hlast s hs
    have hs' := h.contiguous.nonempty s hs
    rw [Int64.lt_iff_toInt_lt, ← h.abuts last hlast]
    omega
  have hsegments : r.rollOver.prevSegments.list.segments =
      r.prevSegments.list.segments ++ [⟨r.activeSegment.baseOffset, r.activeSegment.endOffset⟩] :=
    insertSegment_of_lt hbelow
  refine ⟨⟨?_, ?_, ?_, le_refl _, fun _ hne => absurd rfl hne, rfl, rfl, h.segmentMax⟩,
    ⟨by rw [hsegments]; exact List.prefix_append _ _, .inr rfl, rfl⟩⟩
  · rw [hsegments]
    exact h.contiguous.snoc h.abuts h.base_nonneg hfilled
  · intro last hlast
    rw [hsegments, List.getLast?_concat, Option.mem_some_iff] at hlast
    rw [← hlast]
    rfl
  · change 0 ≤ r.activeSegment.endOffset.toInt
    have := h.base_nonneg
    omega

/-- The active segment's log file never starts past its end offset. -/
theorem Inv.not_end_lt_log (h : r.Inv) : ¬ r.activeSegment.endOffset < r.activeSegment.msgLog.baseOffset := by
  rw [h.logBase, Int64.lt_iff_toInt_lt]
  have := h.base_le_end
  omega

/-- Moving the high watermark leaves the segments as they are. -/
theorem Inv.updateHighWatermark (h : r.Inv) (offset : Int64) :
    (r.updateHighWatermark offset).2.Inv ∧ r.Rolls (r.updateHighWatermark offset).2 ∧
      (r.updateHighWatermark offset).2.getLeo = r.getLeo := by
  unfold FileReplica.updateHighWatermark
  split
  · exact ⟨h, .refl r, rfl⟩
  · exact ⟨{ h with }, .of_prevSegments rfl rfl, rfl⟩

/-! ### The write path -/

section Write

variable {R : Type} [Crc32c] [Encoder R] {batch : Batch R}

theorem returned_of_appendRolled (hret : Returned (r.appendRolled batch).1) :
    Returned (r.activeSegment.appendBatch batch).1 := by
  unfold FileReplica.appendRolled at hret
  split at hret <;> rename_i heq <;> rw [heq]
  · trivial
  · trivial
  · simpa using hret

theorem returned_of_appendActive (hret : Returned (r.appendActive batch).1) :
    Returned (r.activeSegment.appendBatch batch).1 := by
  unfold FileReplica.appendActive at hret
  split at hret <;> rename_i heq <;> rw [heq]
  · trivial
  · trivial
  · simpa using hret

/-- The append after a roll-over keeps the segments, and moves the log end offset by at most
the batch's records. -/
theorem Inv.appendRolled (h : r.Inv) (hleo : r.getLeo.toInt + batch.recordsLen < 2 ^ 63)
    (hret : Returned (r.appendRolled batch).1) :
    (r.appendRolled batch).2.1.Inv ∧ r.Rolls (r.appendRolled batch).2.1 ∧
      (r.appendRolled batch).2.1.getLeo.toInt ≤ r.getLeo.toInt + batch.recordsLen := by
  rcases MutableSegment.appendBatch_returned h.not_end_lt_log (returned_of_appendRolled hret) with
    ⟨-, hA⟩ | ⟨-, -, hA⟩ | ⟨h0, bytes, index, hA⟩
  · simp only [FileReplica.appendRolled, hA]
    exact ⟨h.failWith _, .of_prevSegments rfl rfl, by change r.getLeo.toInt ≤ _; omega⟩
  · simp only [FileReplica.appendRolled, hA]
    exact ⟨h.failWith _, .of_prevSegments rfl rfl, by change r.getLeo.toInt ≤ _; omega⟩
  · obtain ⟨hinv, hleo'⟩ := h.append bytes index h0 hleo
    simp only [FileReplica.appendRolled, hA]
    exact ⟨hinv, .of_prevSegments rfl rfl, le_of_eq hleo'⟩

/-- **A write to the active segment keeps the segments**, rolling it over when the batch fits
a segment but not it; the log end offset moves by at most the batch's records. -/
theorem Inv.appendActive (h : r.Inv) (hsc : r.shortCircuit = false)
    (hfit : ∃ n, Encoder.writeSize batch = some n ∧ n ≤ r.maxSegmentSize)
    (hleo : r.getLeo.toInt + batch.recordsLen < 2 ^ 63) (hret : Returned (r.appendActive batch).1) :
    (r.appendActive batch).2.1.Inv ∧ r.Rolls (r.appendActive batch).2.1 ∧
      (r.appendActive batch).2.1.getLeo.toInt ≤ r.getLeo.toInt + batch.recordsLen := by
  rcases MutableSegment.appendBatch_returned h.not_end_lt_log (returned_of_appendActive hret) with
    ⟨-, hA⟩ | ⟨-, ⟨n, hsize, hfull⟩, hA⟩ | ⟨h0, bytes, index, hA⟩
  · simp only [FileReplica.appendActive, hA]
    exact ⟨h.failWith _, .of_prevSegments rfl rfl, by change r.getLeo.toInt ≤ _; omega⟩
  · -- the batch fits a segment but not this one, so this one holds a byte, and an offset
    obtain ⟨m, hsize', hle⟩ := hfit
    have hmn : m = n := Option.some.inj (hsize'.symm.trans hsize)
    have hbytes : r.activeSegment.msgLog.bytes ≠ [] := by
      intro hnil
      rw [hnil, h.maxLen, List.length_nil, Nat.add_zero] at hfull
      have := Nat.mod_le n (2 ^ 32)
      omega
    obtain ⟨hinv, hrolls⟩ := h.rollOver (h.filled hsc hbytes)
    -- the batch goes to the new segment with the base offset the full one gave it
    simp only [FileReplica.appendActive, hA] at hret ⊢
    obtain ⟨hinv', hrolls', hleo'⟩ := hinv.appendRolled (by rw [getLeo_rollOver]; exact hleo) hret
    rw [getLeo_rollOver] at hleo'
    exact ⟨hinv', hrolls.trans hrolls', hleo'⟩
  · obtain ⟨hinv, hleo'⟩ := h.append bytes index h0 hleo
    simp only [FileReplica.appendActive, hA]
    exact ⟨hinv, .of_prevSegments rfl rfl, le_of_eq hleo'⟩

theorem Inv.writeBatch (h : r.Inv) (hfit : ∃ n, Encoder.writeSize batch = some n ∧ n ≤ r.maxSegmentSize)
    (hleo : r.getLeo.toInt + batch.recordsLen < 2 ^ 63) (hret : Returned (r.writeBatch batch).1) :
    (r.writeBatch batch).2.1.Inv ∧ r.Rolls (r.writeBatch batch).2.1 ∧
      (r.writeBatch batch).2.1.getLeo.toInt ≤ r.getLeo.toInt + batch.recordsLen := by
  unfold FileReplica.writeBatch at hret ⊢
  split
  · exact ⟨h, .refl r, by change r.getLeo.toInt ≤ _; omega⟩
  · rename_i hsc
    rw [if_neg hsc] at hret
    exact h.appendActive (Bool.eq_false_iff.mpr hsc) hfit hleo hret

/-- The write loop keeps the segments, batch after batch, until it stops. -/
theorem Inv.writeBatches : ∀ {r : FileReplica} {batches : List (Batch R)}, r.Inv →
    (∀ b ∈ batches, ∃ n, Encoder.writeSize b = some n ∧ n ≤ r.maxSegmentSize) →
    r.getLeo.toInt + (batches.map Batch.recordsLen).sum < 2 ^ 63 →
    Returned (r.writeBatches batches).1 →
    (r.writeBatches batches).2.1.Inv ∧ r.Rolls (r.writeBatches batches).2.1 ∧
      (r.writeBatches batches).2.1.getLeo.toInt ≤ r.getLeo.toInt + (batches.map Batch.recordsLen).sum
  | r, [], h, _, _, _ => ⟨h, .refl r, by simp [FileReplica.writeBatches]⟩
  | r, batch :: rest, h, hfit, hleo, hret => by
    rw [List.map_cons, List.sum_cons] at hleo ⊢
    rcases hw : r.writeBatch batch with ⟨res, r1, batch1⟩
    cases res with
    | error f =>
      simp only [FileReplica.writeBatches, hw] at hret ⊢
      obtain ⟨h1, hr1, hleo1⟩ := h.writeBatch (hfit batch List.mem_cons_self) (by omega) (by rw [hw]; exact hret)
      simp only [hw] at h1 hr1 hleo1
      exact ⟨h1, hr1, by omega⟩
    | ok u =>
      obtain ⟨h1, hr1, hleo1⟩ := h.writeBatch (hfit batch List.mem_cons_self) (by omega) (by rw [hw]; trivial)
      simp only [hw] at h1 hr1 hleo1
      rcases hrest : r1.writeBatches rest with ⟨res2, r2, rest2⟩
      simp only [FileReplica.writeBatches, hw, hrest] at hret ⊢
      obtain ⟨h2, hr2, hleo2⟩ := Inv.writeBatches h1
        (fun b hb => by rw [hr1.maxSegmentSize]; exact hfit b (List.mem_cons_of_mem _ hb)) (by omega)
        (by rw [hrest]; exact hret)
      simp only [hrest] at h2 hr2 hleo2
      exact ⟨h2, hr1.trans hr2, by omega⟩

/-- Every batch that passes the size check fits a segment. -/
theorem checkBatches_fit : ∀ {batches : List (Batch R)} {total total' : Nat},
    r.checkBatches batches total = .ok total' →
      ∀ b ∈ batches, ∃ n, Encoder.writeSize b = some n ∧ n ≤ r.maxSegmentSize
  | [], _, _, _ => fun _ hb => nomatch hb
  | batch :: rest, total, total', h => by
    unfold FileReplica.checkBatches at h
    split at h
    · simp at h
    · rename_i n hsize
      split_ifs at h with hseg
      intro b hb
      rcases List.mem_cons.mp hb with rfl | hb
      · exact ⟨n, hsize, by omega⟩
      · exact checkBatches_fit h b hb

/-- **`write_recordset` keeps the segments** whether it writes every batch, stops at a failing
one, or is refused by the size check; the log end offset moves by at most the records. -/
theorem Inv.writeRecordset (h : r.Inv) {records : RecordSet R} {update : Bool}
    (hleo : r.getLeo.toInt + records.totalRecords < 2 ^ 63)
    (hret : Returned (r.writeRecordset records update).1) :
    (r.writeRecordset records update).2.1.Inv ∧ r.Rolls (r.writeRecordset records update).2.1 ∧
      (r.writeRecordset records update).2.1.getLeo.toInt ≤ r.getLeo.toInt + records.totalRecords := by
  unfold FileReplica.writeRecordset at hret ⊢
  cases hcheck : r.checkBatches records.batches 0 with
  | error f => exact ⟨h, .refl r, by dsimp only; omega⟩
  | ok total =>
    simp only [hcheck] at hret ⊢
    rcases hw : r.writeBatches records.batches with ⟨res, r1, batches⟩
    have hret1 : Returned (r.writeBatches records.batches).1 := by
      rw [hw]
      cases res with
      | ok u => trivial
      | error f => simpa [hw] using hret
    obtain ⟨h1, hr1, hleo1⟩ := h.writeBatches (checkBatches_fit hcheck) hleo hret1
    simp only [hw] at h1 hr1 hleo1
    cases res with
    | error f => exact ⟨h1, hr1, hleo1⟩
    | ok u =>
      cases update with
      | false =>
        simp only [Bool.false_eq_true, if_false]
        exact ⟨h1, hr1, hleo1⟩
      | true =>
        simp only [if_true]
        obtain ⟨h2, hr2, hleo2⟩ := h1.updateHighWatermark r1.getLeo
        exact ⟨h2, hr1.trans hr2, by rw [hleo2]; exact hleo1⟩

end Write

end FileReplica

/-! ### Cached bounds -/

namespace SegmentList

variable {list list' : SegmentList}

/-- An empty list caches `-1` as its smallest base. -/
theorem minOffset_of_nil (h : list.segments = []) : list.minOffset = -1 := by
  have hcached := list.cached
  rw [h, minMax_nil, Prod.mk.injEq] at hcached
  exact hcached.1.symm

/-- A list of contiguous segments caches its first base as its smallest. -/
theorem minOffset_of_cons {s : ReadSegment} {rest : List ReadSegment} (hc : Contiguous list.segments)
    (h : list.segments = s :: rest) : list.minOffset = s.baseOffset := by
  rw [h] at hc
  exact (list.bounds_contiguous h hc (List.getLast?_eq_some_getLast (List.cons_ne_nil s rest))).1

/-- Segments added after contiguous ones leave the smallest base as it was. -/
theorem minOffset_of_prefix (hc : Contiguous list.segments) (hc' : Contiguous list'.segments)
    (hpre : list.segments <+: list'.segments) (hne : list.segments ≠ []) :
    list'.minOffset = list.minOffset := by
  obtain ⟨s, rest, hseg⟩ := List.exists_cons_of_ne_nil hne
  obtain ⟨more, hmore⟩ := hpre
  rw [minOffset_of_cons hc hseg, minOffset_of_cons hc' (by rw [← hmore, hseg, List.cons_append])]

/-- `find_segment` on contiguous segments, empty or not, finds the segment that holds the offset. -/
theorem findSegment_eq_find?_of_contiguous (hc : Contiguous list.segments) (o : Int64) :
    list.findSegment o = .ok ((list.segments.find? fun t => decide (t.Holds o)).map fun t => (t.baseOffset, t)) := by
  by_cases hne : list.segments = []
  · have hcached := list.cached
    rw [hne, minMax_nil, Prod.mk.injEq] at hcached
    obtain ⟨hmin, hmax⟩ := hcached
    rw [hne, List.find?_nil, Option.map_none]
    unfold SegmentList.findSegment
    rw [← hmin, ← hmax, hne]
    split_ifs with hbelow hat habove
    · rfl
    · rw [rangeLast, if_neg Int64.lt_irrefl]
      rfl
    · rfl
    · -- no offset lies strictly between `-1` and `0`
      rw [Int64.lt_iff_toInt_lt] at hbelow
      rw [Int64.le_iff_toInt_le] at habove
      have hat' : o.toInt ≠ -1 := fun h' => hat (Int64.toInt_inj.mp h')
      simp at hbelow habove
      omega
  · exact list.findSegment_eq_find? hc hne o

end SegmentList

/-! ### The size check of the cleaner -/

/-- The atomic smallest base of the segments: the list's, or `-1`, which a roll-over between the
two parts of a removal can leave behind (`SharedSegments.storeMin_stale`). -/
def SharedSegments.Cached (shared : SharedSegments) : Prop :=
  shared.minOffset = shared.list.minOffset ∨ shared.minOffset = -1

/-- The replica's tasks with the cleaner inside `Cleaner::enforce_size`: the bases `find_first`
returned that `remove_segments` has not come to yet. -/
structure SizeCleaner where
  tasks : ReplicaTasks
  toRemove : List Int64

/-- What the writing task and `enforce_size` do: a write, a move of the high watermark,
`find_first` with the count the replica's size asks for, and the two parts of the removal of the
next base it found. -/
inductive SizeCleanerAction (R : Type)
  | writeRecordset (records : RecordSet R) (updateHighwatermark : Bool)
  | updateHighWatermark (offset : Int64)
  | findFirst (count : Nat)
  | removeLocked
  | storeMin

/-- The records a write announces. -/
def SizeCleanerAction.records {R : Type} : SizeCleanerAction R → Nat
  | .writeRecordset records _ => records.totalRecords
  | _ => 0

/-- A new replica, and the cleaner between two calls of `enforce_size`. -/
def SizeCleaner.new (baseOffset : Int64) (maxRequestSize maxSegmentSize : Nat) : SizeCleaner :=
  ⟨⟨FileReplica.create baseOffset maxRequestSize maxSegmentSize, none⟩, []⟩

/-- One action. `enforce_size` calls `find_first` once `remove_segments` has removed every base
the previous call found, and removes the bases in the order it found them. -/
def SizeCleaner.next {R : Type} [Crc32c] [Encoder R] (s : SizeCleaner) :
    SizeCleanerAction R → Option SizeCleaner
  | .writeRecordset records update =>
    (s.tasks.next (.writeRecordset records update)).map fun tasks => { s with tasks }
  | .updateHighWatermark offset =>
    (s.tasks.next (.updateHighWatermark offset : ReplicaAction R)).map fun tasks => { s with tasks }
  | .findFirst count =>
    if s.toRemove = [] ∧ s.tasks.cleanerPending = none then
      some { s with toRemove := s.tasks.replica.prevSegments.list.findFirst count }
    else none
  | .removeLocked =>
    match s.toRemove with
    | [] => none
    | offset :: rest => (s.tasks.next (.removeLocked offset : ReplicaAction R)).map fun tasks => ⟨tasks, rest⟩
  | .storeMin => (s.tasks.next (.storeMin : ReplicaAction R)).map fun tasks => { s with tasks }

/-- What holds along every run of the writing task and the size check: the replica's segments
are contiguous, the bases left to remove are the first of the list, and the atomic smallest
base, or the one a removal will store, is the list's or `-1`. -/
structure SizeCleaner.Inv (s : SizeCleaner) : Prop where
  replica : s.tasks.replica.Inv
  toRemove : s.toRemove <+: s.tasks.replica.prevSegments.list.segments.map ReadSegment.baseOffset
  cached : s.tasks.cleanerPending = none ∨ s.tasks.cleanerPending = some none →
    s.tasks.replica.prevSegments.Cached
  pending : ∀ m, s.tasks.cleanerPending = some (some m) →
    m = s.tasks.replica.prevSegments.list.minOffset ∨ m = -1

namespace SizeCleaner

variable {s s' : SizeCleaner} {r r' : FileReplica}

theorem cached_of_rolls (hr : r.Rolls r') (hcached : r.prevSegments.Cached) : r'.prevSegments.Cached := by
  rcases hr.stored with heq | hmin
  · rw [heq]
    exact hcached
  · exact .inl hmin

theorem pending_of_rolls (h : r.Inv) (h' : r'.Inv) (hr : r.Rolls r') {m : Int64}
    (hm : m = r.prevSegments.list.minOffset ∨ m = -1) :
    m = r'.prevSegments.list.minOffset ∨ m = -1 := by
  by_cases hne : r.prevSegments.list.segments = []
  · rw [SegmentList.minOffset_of_nil hne] at hm
    exact .inr (hm.elim id id)
  · rw [SegmentList.minOffset_of_prefix h.contiguous h'.contiguous hr.segments hne]
    exact hm

/-- A step of the writing task: the segments grow as `FileReplica.Rolls` says. -/
theorem Inv.rolls (h : s.Inv) {tasks : ReplicaTasks} (hinv : tasks.replica.Inv)
    (hr : s.tasks.replica.Rolls tasks.replica) (hpending : tasks.cleanerPending = s.tasks.cleanerPending) :
    (⟨tasks, s.toRemove⟩ : SizeCleaner).Inv where
  replica := hinv
  toRemove := h.toRemove.trans (hr.segments.map _)
  cached hp := cached_of_rolls hr (h.cached (hpending ▸ hp))
  pending m hp := pending_of_rolls h.replica hinv hr (h.pending m (hpending ▸ hp))

/-- A new replica and an idle cleaner. -/
theorem Inv.new {baseOffset : Int64} {maxRequestSize maxSegmentSize : Nat}
    (hbase : 0 ≤ baseOffset.toInt) (hmax : maxSegmentSize < 2 ^ 32) :
    (SizeCleaner.new baseOffset maxRequestSize maxSegmentSize).Inv where
  replica := FileReplica.Inv.create hbase hmax
  toRemove := List.nil_prefix
  cached _ := .inl rfl
  pending _ h := nomatch h

/-- `find_first` takes bases from the front of the list. -/
theorem Inv.findFirst (h : s.Inv) (count : Nat) :
    ({ s with toRemove := s.tasks.replica.prevSegments.list.findFirst count } : SizeCleaner).Inv := by
  refine { h with toRemove := ?_ }
  rw [SegmentList.findFirst, List.map_take]
  exact List.take_prefix _ _

/-- **The first part of a removal takes the first segment off the list**: the bases left are the
first of the rest, and the smallest base the removal will store is the rest's. -/
theorem Inv.removeLocked (h : s.Inv) {offset : Int64} {rest : List Int64}
    (htoRemove : s.toRemove = offset :: rest) :
    (⟨⟨{ s.tasks.replica with
          prevSegments := (s.tasks.replica.prevSegments.removeLocked offset).1 },
        some (s.tasks.replica.prevSegments.removeLocked offset).2⟩, rest⟩ : SizeCleaner).Inv := by
  have hpre := h.toRemove
  rw [htoRemove] at hpre
  -- the base to remove is the first one of the list
  obtain ⟨first, segments, hseg, hfirst⟩ : ∃ first segments,
      s.tasks.replica.prevSegments.list.segments = first :: segments ∧ first.baseOffset = offset := by
    cases hlist : s.tasks.replica.prevSegments.list.segments with
    | nil =>
      rw [hlist] at hpre
      exact absurd hpre.length_le (by simp)
    | cons first segments =>
      rw [hlist, List.map_cons, List.cons_prefix_cons] at hpre
      exact ⟨first, segments, rfl, hpre.1.symm⟩
  have hremove : s.tasks.replica.prevSegments.removeLocked offset =
      ({ s.tasks.replica.prevSegments with list := SegmentList.ofSegments segments },
        some (SegmentList.ofSegments segments).minOffset) := by
    simp [SharedSegments.removeLocked, SegmentList.removeSegment, hseg, eraseSegment, hfirst]
  rw [hremove]
  have hc := h.replica.contiguous
  rw [hseg] at hc
  refine ⟨{ h.replica with contiguous := hc.tail, abuts := ?_ }, ?_, ?_, ?_⟩
  · intro last hlast
    change segments.getLast? = some last at hlast
    apply h.replica.abuts last
    rw [hseg, List.getLast?_cons, hlast]
    rfl
  · rw [hseg, List.map_cons, List.cons_prefix_cons] at hpre
    exact hpre.2
  · intro hp
    simp at hp
  · intro m hm
    simp only [Option.some.injEq] at hm
    exact .inl hm.symm

/-- The second part of a removal stores the smallest base it computed. -/
theorem Inv.storeMin (h : s.Inv) {pending : Option Int64} (hp : s.tasks.cleanerPending = some pending) :
    (⟨⟨{ s.tasks.replica with prevSegments := s.tasks.replica.prevSegments.storeMin pending }, none⟩,
      s.toRemove⟩ : SizeCleaner).Inv := by
  cases pending with
  | none => exact ⟨{ h.replica with }, h.toRemove, fun _ => h.cached (.inr hp), fun _ hm => nomatch hm⟩
  | some m =>
    refine ⟨{ h.replica with }, h.toRemove, fun _ => ?_, fun _ hm => nomatch hm⟩
    rcases h.pending m hp with heq | hneg
    · exact .inl heq
    · exact .inr hneg

section Step

variable {R : Type} [Crc32c] [Encoder R]

theorem next_writeRecordset {tasks tasks' : ReplicaTasks} {records : RecordSet R} {update : Bool}
    (h : tasks.next (.writeRecordset records update) = some tasks') :
    Returned (tasks.replica.writeRecordset records update).1 ∧
      tasks' = { tasks with replica := (tasks.replica.writeRecordset records update).2.1 } := by
  simp only [ReplicaTasks.next] at h
  split at h
  · cases h
  · cases h
  · rename_i res replica batches hpanic hdiverge heq
    cases h
    rw [heq]
    refine ⟨?_, rfl⟩
    cases res with
    | ok total => trivial
    | error f =>
      cases f with
      | error e => trivial
      | panic msg => exact absurd rfl (hpanic msg)
      | diverge => exact absurd rfl hdiverge

/-- **Every action keeps the invariant**; only a write moves the log end offset, and by at most
the records it announces. -/
theorem Inv.next (h : s.Inv) {a : SizeCleanerAction R}
    (hleo : s.tasks.replica.getLeo.toInt + a.records < 2 ^ 63) (hnext : s.next a = some s') :
    s'.Inv ∧ s'.tasks.replica.getLeo.toInt ≤ s.tasks.replica.getLeo.toInt + a.records := by
  cases a with
  | writeRecordset records update =>
    simp only [SizeCleaner.next, Option.map_eq_some_iff] at hnext
    obtain ⟨tasks, htasks, rfl⟩ := hnext
    obtain ⟨hret, rfl⟩ := next_writeRecordset htasks
    obtain ⟨hinv, hr, hleo'⟩ := h.replica.writeRecordset hleo hret
    exact ⟨h.rolls hinv hr rfl, hleo'⟩
  | updateHighWatermark offset =>
    simp only [SizeCleaner.next, ReplicaTasks.next, Option.map_some, Option.some.injEq] at hnext
    subst hnext
    obtain ⟨hinv, hr, hleo'⟩ := h.replica.updateHighWatermark offset
    exact ⟨h.rolls hinv hr rfl, by rw [hleo']; simp [SizeCleanerAction.records]⟩
  | findFirst count =>
    simp only [SizeCleaner.next] at hnext
    split_ifs at hnext
    cases hnext
    exact ⟨h.findFirst count, by simp [SizeCleanerAction.records]⟩
  | removeLocked =>
    simp only [SizeCleaner.next] at hnext
    split at hnext
    · cases hnext
    · rename_i offset rest htoRemove
      simp only [ReplicaTasks.next, Option.map_eq_some_iff] at hnext
      obtain ⟨tasks, htasks, rfl⟩ := hnext
      split at htasks
      · cases htasks
      · cases htasks
        exact ⟨h.removeLocked htoRemove, by simp [SizeCleanerAction.records, FileReplica.getLeo]⟩
  | storeMin =>
    simp only [SizeCleaner.next, ReplicaTasks.next, Option.map_eq_some_iff] at hnext
    obtain ⟨tasks, htasks, rfl⟩ := hnext
    split at htasks
    · rename_i pending hp
      cases htasks
      exact ⟨h.storeMin hp, by simp [SizeCleanerAction.records, FileReplica.getLeo]⟩
    · cases htasks

/-- The invariant along a run whose writes keep the log end offset below `2 ^ 63`. -/
theorem Inv.run : ∀ {actions : List (SizeCleanerAction R)} {s s' : SizeCleaner}, s.Inv →
    s.tasks.replica.getLeo.toInt + (actions.map SizeCleanerAction.records).sum < 2 ^ 63 →
    Trace.run SizeCleaner.next s actions = some s' →
    s'.Inv ∧
      s'.tasks.replica.getLeo.toInt ≤ s.tasks.replica.getLeo.toInt + (actions.map SizeCleanerAction.records).sum
  | [], s, s', h, _, hrun => by
    simp only [Trace.run, Option.some.injEq] at hrun
    subst hrun
    exact ⟨h, by simp⟩
  | a :: actions, s, s', h, hbound, hrun => by
    simp only [Trace.run, Option.bind_eq_some_iff] at hrun
    obtain ⟨s1, hs1, hrest⟩ := hrun
    rw [List.map_cons, List.sum_cons] at hbound ⊢
    obtain ⟨h1, hleo1⟩ := h.next (by omega) hs1
    obtain ⟨h', hleo'⟩ := Inv.run h1 (by omega) hrest
    exact ⟨h', by omega⟩

end Step

end SizeCleaner

/-! ### Where `read_records` reads -/

/-- Where `read_records` takes its slice from: the empty slice at the log end offset, the active
segment, or the previous segment `find_segment` returns. -/
inductive ReadSource
  | logEnd
  | active
  | previous (segment : ReadSegment)
deriving DecidableEq, Repr

/-- `FileReplica::read_records` up to the slice it takes: where it reads from, or the error it
returns. The outer `Except` is the panic of the map's range query. The slice of the segment and
its cut at `max_len` are left out. -/
def FileReplica.readSource (r : FileReplica) (startOffset : Int64) :
    Except String (Except Fluvio.Replication.ErrorCode ReadSource) :=
  let leo := r.getLeo
  if r.activeSegment.baseOffset ≤ startOffset then
    if startOffset = leo then .ok (.ok .logEnd)
    else if leo < startOffset then
      .ok (.error (.other s!"start offset: {startOffset} is greater than leo: {leo}"))
    else .ok (.ok .active)
  else
    (r.prevSegments.list.findSegment startOffset).map fun
      | some (_, segment) => .ok (.previous segment)
      | none => .error (.offsetEvicted startOffset.toInt r.getLogStartOffset.toInt)

namespace FileReplica

variable {r : FileReplica} {o : Int64}

/-- A read never panics on the range of the segment map, and a previous segment it reads from
holds the offset. -/
theorem Inv.readSource_holds (h : r.Inv) (o : Int64) :
    ∃ res, r.readSource o = .ok res ∧ ∀ seg, res = .ok (.previous seg) → seg.Holds o := by
  unfold FileReplica.readSource
  dsimp only
  split_ifs
  · exact ⟨_, rfl, fun _ hseg => nomatch hseg⟩
  · exact ⟨_, rfl, fun _ hseg => nomatch hseg⟩
  · exact ⟨_, rfl, fun _ hseg => nomatch hseg⟩
  · rw [SegmentList.findSegment_eq_find?_of_contiguous h.contiguous o]
    cases hfind : r.prevSegments.list.segments.find? (fun t => decide (t.Holds o)) with
    | none => exact ⟨_, rfl, fun _ hseg => nomatch hseg⟩
    | some seg =>
      refine ⟨.ok (.previous seg), rfl, fun seg' hseg' => ?_⟩
      simp only [Except.ok.injEq, ReadSource.previous.injEq] at hseg'
      subst hseg'
      simpa using List.find?_some hfind

/-- Below the active segment, a log start offset at or below the offset is the list's first base,
when the atomic smallest base is the list's or `-1`. -/
theorem Inv.logStart_eq_first (h : r.Inv) (hcached : r.prevSegments.Cached)
    (hbelow : ¬ r.activeSegment.baseOffset ≤ o) (hstart : r.getLogStartOffset ≤ o) :
    ∃ first rest, r.prevSegments.list.segments = first :: rest ∧
      r.getLogStartOffset = first.baseOffset := by
  have hatomic : ¬ r.prevSegments.minOffset < 0 := by
    intro hneg
    rw [getLogStartOffset, if_pos hneg] at hstart
    exact hbelow hstart
  have hstart' : r.getLogStartOffset = r.prevSegments.list.minOffset := by
    rw [getLogStartOffset, if_neg hatomic]
    rcases hcached with heq | hneg
    · exact heq
    · exact absurd (by rw [hneg]; decide) hatomic
  cases hseg : r.prevSegments.list.segments with
  | nil =>
    rw [hstart', SegmentList.minOffset_of_nil hseg] at hstart
    rcases hcached with heq | hneg
    · rw [heq, SegmentList.minOffset_of_nil hseg] at hatomic
      exact absurd (by decide) hatomic
    · rw [hneg] at hatomic
      exact absurd (by decide) hatomic
  | cons first rest =>
    exact ⟨first, rest, rfl, by rw [hstart', SegmentList.minOffset_of_cons h.contiguous hseg]⟩

/-- **Every offset from the log start offset to the log end offset is read from a segment**,
when the atomic smallest base is the list's or `-1`. -/
theorem Inv.readSource_complete (h : r.Inv) (hcached : r.prevSegments.Cached)
    (hstart : r.getLogStartOffset ≤ o) (hleo : o < r.getLeo) :
    r.readSource o = .ok (.ok .active) ∨
      ∃ seg, r.readSource o = .ok (.ok (.previous seg)) ∧ seg.Holds o := by
  unfold FileReplica.readSource
  dsimp only
  by_cases hactive : r.activeSegment.baseOffset ≤ o
  · left
    have hne : ¬ o = r.getLeo := fun heq => Int64.lt_irrefl (heq ▸ hleo)
    have hnot : ¬ r.getLeo < o := fun hlt => Int64.lt_asymm hlt hleo
    rw [if_pos hactive, if_neg hne, if_neg hnot]
  · right
    rw [if_neg hactive, SegmentList.findSegment_eq_find?_of_contiguous h.contiguous o]
    -- below the active segment the log start offset is the first base of the list
    obtain ⟨first, rest, hseg, hfirst⟩ := h.logStart_eq_first hcached hactive hstart
    have hc := h.contiguous
    rw [hseg] at hc
    have hlast := List.getLast?_eq_some_getLast (List.cons_ne_nil first rest)
    have hend := h.abuts _ (by rw [hseg]; exact hlast)
    have hin : ((first :: rest).find? fun t => decide (t.Holds o)).isSome := by
      rw [find?_holds_isSome_iff hc hlast, hend]
      rw [hfirst, Int64.le_iff_toInt_le] at hstart
      exact ⟨hstart, by simpa [Int64.le_iff_toInt_le] using hactive⟩
    obtain ⟨seg, hfind⟩ := Option.isSome_iff_exists.mp hin
    rw [hseg, hfind]
    exact ⟨seg, rfl, by simpa using List.find?_some hfind⟩

/-- `OffsetEvicted` comes only below the log start offset, when the atomic smallest base is the
list's or `-1`. -/
theorem Inv.readSource_evicted (h : r.Inv) (hcached : r.prevSegments.Cached) {a b : Int}
    (hev : r.readSource o = .ok (.error (.offsetEvicted a b))) : o < r.getLogStartOffset := by
  unfold FileReplica.readSource at hev
  dsimp only at hev
  split_ifs at hev with hactive
  · simp at hev
  · simp at hev
  · simp at hev
  · rw [← Std.not_le]
    intro hstart
    obtain ⟨first, rest, hseg, hfirst⟩ := h.logStart_eq_first hcached hactive hstart
    have hc := h.contiguous
    rw [hseg] at hc
    have hlast := List.getLast?_eq_some_getLast (List.cons_ne_nil first rest)
    have hend := h.abuts _ (by rw [hseg]; exact hlast)
    -- the offset lies inside the list, so `find_segment` returns a segment
    have hin : ((first :: rest).find? fun t => decide (t.Holds o)).isSome := by
      rw [find?_holds_isSome_iff hc hlast, hend]
      rw [hfirst, Int64.le_iff_toInt_le] at hstart
      exact ⟨hstart, by simpa [Int64.le_iff_toInt_le] using hactive⟩
    obtain ⟨seg, hfind⟩ := Option.isSome_iff_exists.mp hin
    rw [SegmentList.findSegment_eq_find?_of_contiguous h.contiguous o, hseg, hfind] at hev
    simp [Except.map] at hev

end FileReplica

namespace SizeCleaner

section Reads

variable {R : Type} [Crc32c] [Encoder R] {baseOffset : Int64} {maxRequestSize maxSegmentSize : Nat}
  {actions : List (SizeCleanerAction R)} {s : SizeCleaner}

/-- **Reads are sound along every interleaving** of the writing task and the size check, from a
new replica whose writes keep the log end offset below `2 ^ 63`: `read_records` never panics on
the range of the segment map, and a previous segment it reads from holds the offset. -/
theorem read_holds (hbase : 0 ≤ baseOffset.toInt) (hmax : maxSegmentSize < 2 ^ 32)
    (hbound : baseOffset.toInt + (actions.map SizeCleanerAction.records).sum < 2 ^ 63)
    (hrun : Trace.run SizeCleaner.next (SizeCleaner.new baseOffset maxRequestSize maxSegmentSize) actions = some s)
    (o : Int64) :
    ∃ res, s.tasks.replica.readSource o = .ok res ∧ ∀ seg, res = .ok (.previous seg) → seg.Holds o :=
  ((Inv.new hbase hmax).run hbound hrun).1.replica.readSource_holds o

end Reads

/-- Two writes fill two segments of one batch each; the size check finds the first and takes it
off the list, and a third write rolls the second over before the removal stores the smallest
base. -/
def midRemovalTrace : List (SizeCleanerAction RawRecords) :=
  [.writeRecordset oneBatchSet false, .writeRecordset oneBatchSet false, .findFirst 1, .removeLocked,
    .writeRecordset oneBatchSet false]

/-- Between the two parts of the removal, a read of offset `0`, the segment just removed, is
sound. -/
theorem midRemoval_read_holds : ∃ s, Trace.run SizeCleaner.next (SizeCleaner.new 0 1024 100) midRemovalTrace = some s ∧
    ∃ res, s.tasks.replica.readSource 0 = .ok res ∧ ∀ seg, res = .ok (.previous seg) → seg.Holds 0 := by
  obtain ⟨s, hrun⟩ : ∃ s, Trace.run SizeCleaner.next (SizeCleaner.new 0 1024 100) midRemovalTrace = some s :=
    Option.isSome_iff_exists.mp (by decide +kernel)
  exact ⟨s, hrun, read_holds (by decide) (by decide) (by decide) hrun 0⟩

section Reads

variable {R : Type} [Crc32c] [Encoder R] {baseOffset : Int64} {maxRequestSize maxSegmentSize : Nat}
  {actions : List (SizeCleanerAction R)} {s : SizeCleaner}

/-- **Reads are complete when no removal is half done**: every offset from the log start offset
to the log end offset is read from the active segment or from a previous one that holds it, and
`OffsetEvicted` comes only below the log start offset. -/
theorem read_complete (hbase : 0 ≤ baseOffset.toInt) (hmax : maxSegmentSize < 2 ^ 32)
    (hbound : baseOffset.toInt + (actions.map SizeCleanerAction.records).sum < 2 ^ 63)
    (hrun : Trace.run SizeCleaner.next (SizeCleaner.new baseOffset maxRequestSize maxSegmentSize) actions = some s)
    (hsettled : s.tasks.cleanerPending = none) (o : Int64) :
    (s.tasks.replica.getLogStartOffset ≤ o → o < s.tasks.replica.getLeo →
      s.tasks.replica.readSource o = .ok (.ok .active) ∨
        ∃ seg, s.tasks.replica.readSource o = .ok (.ok (.previous seg)) ∧ seg.Holds o) ∧
    (∀ a b, s.tasks.replica.readSource o = .ok (.error (.offsetEvicted a b)) →
      o < s.tasks.replica.getLogStartOffset) := by
  have h := ((Inv.new hbase hmax).run hbound hrun).1
  have hcached := h.cached (.inl hsettled)
  exact ⟨fun hstart hleo => h.replica.readSource_complete hcached hstart hleo,
    fun _ _ hev => h.replica.readSource_evicted hcached hev⟩

end Reads

/-- Three writes fill three segments of one batch each; the size check finds the first and
removes it. -/
def trimmedTrace : List (SizeCleanerAction RawRecords) :=
  [.writeRecordset oneBatchSet false, .writeRecordset oneBatchSet false, .writeRecordset oneBatchSet false,
    .findFirst 1, .removeLocked, .storeMin]

/-- After the removal the log starts at offset `1` and ends at `3`, and offset `1` is read from a
segment. -/
theorem trimmedLog_read_complete : ∃ s, Trace.run SizeCleaner.next (SizeCleaner.new 0 1024 100) trimmedTrace = some s ∧
    s.tasks.replica.getLogStartOffset = 1 ∧ s.tasks.replica.getLeo = 3 ∧
    (s.tasks.replica.readSource 1 = .ok (.ok .active) ∨
      ∃ seg, s.tasks.replica.readSource 1 = .ok (.ok (.previous seg)) ∧ seg.Holds 1) := by
  obtain ⟨s, hrun⟩ : ∃ s, Trace.run SizeCleaner.next (SizeCleaner.new 0 1024 100) trimmedTrace = some s :=
    Option.isSome_iff_exists.mp (by decide +kernel)
  have hfacts : (Trace.run SizeCleaner.next (SizeCleaner.new 0 1024 100) trimmedTrace).map
      (fun s => (s.tasks.cleanerPending, s.tasks.replica.getLogStartOffset, s.tasks.replica.getLeo)) =
      some (none, 1, 3) := by
    decide +kernel
  rw [hrun, Option.map_some, Option.some.injEq, Prod.mk.injEq, Prod.mk.injEq] at hfacts
  obtain ⟨hsettled, hstart, hleo⟩ := hfacts
  refine ⟨s, hrun, hstart, hleo, ?_⟩
  exact (read_complete (by decide) (by decide) (by decide) hrun hsettled 1).1 (by rw [hstart]; decide)
    (by rw [hleo]; decide)

end SizeCleaner

end Fluvio.Storage
