import Fluvio.Storage.Segment

/-!
A replica's log (`fluvio-storage`: `segments.rs`, `replica.rs`): the previous
segments, the active one, the high watermark and the write path.

The previous segments sit in a `BTreeMap` keyed by base offset, with the smallest
base and the largest end offset cached beside it (`SegmentList`); the map is
shared with the cleaner behind a lock, and the smallest base is cached once more
in an atomic that `get_log_start_offset` reads without the lock
(`SharedSegments.minOffset`). `write_recordset` checks every batch's size before
it writes any, then writes them one by one; a batch that does not fit the active
segment rolls it over into the map and goes to a fresh segment. An error from the
active segment sets `short_circuit`, and every later write fails on it.

The sparse index entries, the files of the previous segments and the sizes kept for
the cleaner are not modelled: the write path and the offsets do not read them.
-/

namespace Fluvio.Storage

open Fluvio.Protocol

/-- `ReadSegment`, by its offsets. -/
structure ReadSegment where
  baseOffset : Int64
  endOffset : Int64
deriving DecidableEq, Repr

/-- One segment of `SegmentList::update_min_max`: the smallest base (`-1` for none yet) and
the largest end offset (`0` for none yet). -/
def minMaxStep (acc : Int64 × Int64) (s : ReadSegment) : Int64 × Int64 :=
  (if acc.1 < 0 || s.baseOffset < acc.1 then s.baseOffset else acc.1,
    if acc.2 < s.endOffset then s.endOffset else acc.2)

/-- `SegmentList::update_min_max`, over the segments in key order. -/
def minMax (segments : List ReadSegment) : Int64 × Int64 := segments.foldl minMaxStep (-1, 0)

/-- `BTreeMap::insert` on segments kept in key order: a segment with the same base
replaces the old one. -/
def insertSegment (seg : ReadSegment) : List ReadSegment → List ReadSegment
  | [] => [seg]
  | s :: rest =>
    if seg.baseOffset < s.baseOffset then seg :: s :: rest
    else if seg.baseOffset = s.baseOffset then seg :: rest
    else s :: insertSegment seg rest

/-- `BTreeMap::remove`: the segment with that base, and the others. -/
def eraseSegment (offset : Int64) : List ReadSegment → Option (ReadSegment × List ReadSegment)
  | [] => none
  | s :: rest =>
    if s.baseOffset = offset then some (s, rest)
    else (eraseSegment offset rest).map fun (found, others) => (found, s :: others)

/-- `SegmentList`: the map and its cached bounds, which the structure keeps equal to
`update_min_max` of the map. -/
structure SegmentList where
  segments : List ReadSegment
  minOffset : Int64
  maxOffset : Int64
  cached : minMax segments = (minOffset, maxOffset)
deriving DecidableEq

/-- The list `update_min_max` has just run on. -/
def SegmentList.ofSegments (segments : List ReadSegment) : SegmentList :=
  ⟨segments, (minMax segments).1, (minMax segments).2, rfl⟩

/-- `SegmentList::new`. -/
def SegmentList.new : SegmentList := SegmentList.ofSegments []

/-- `SegmentList::add_segment`: the list, and the new smallest base it returns. -/
def SegmentList.addSegment (list : SegmentList) (seg : ReadSegment) : SegmentList × Int64 :=
  let list := SegmentList.ofSegments (insertSegment seg list.segments)
  (list, list.minOffset)

/-- `SegmentList::remove_segment`: the removed segment and the new smallest base, with the
list, when a segment has that base. -/
def SegmentList.removeSegment (list : SegmentList) (offset : Int64) :
    Option ((ReadSegment × Int64) × SegmentList) :=
  (eraseSegment offset list.segments).map fun (seg, others) =>
    let list := SegmentList.ofSegments others
    ((seg, list.minOffset), list)

/-- `SegmentList::find_first`: the first `count` bases. -/
def SegmentList.findFirst (list : SegmentList) (count : Nat) : List Int64 :=
  (list.segments.take count).map ReadSegment.baseOffset

/-- `BTreeMap::range((Included(lo), Included(hi))).next_back()` on segments in key order: the
last one whose base is in `[lo, hi]`. The map panics on a range that starts after it ends. -/
def rangeLast (segments : List ReadSegment) (lo hi : Int64) : Except String (Option ReadSegment) :=
  if hi < lo then .error "range start is greater than range end in BTreeMap"
  else .ok (segments.filter fun s => decide (lo ≤ s.baseOffset) && decide (s.baseOffset ≤ hi)).getLast?

/-- `SegmentList::find_segment`: below the smallest base nothing, at it the segment there,
from the largest end offset on nothing, and otherwise the last segment whose base lies in
`[offset - max_offset + min_offset + 1, offset]`. -/
def SegmentList.findSegment (list : SegmentList) (offset : Int64) :
    Except String (Option (Int64 × ReadSegment)) :=
  if offset < list.minOffset then .ok none
  else if offset = list.minOffset then
    (rangeLast list.segments offset offset).map (Option.map fun s => (s.baseOffset, s))
  else if list.maxOffset ≤ offset then .ok none
  else
    (rangeLast list.segments (offset - list.maxOffset + list.minOffset + 1) offset).map
      (Option.map fun s => (s.baseOffset, s))

/-- `SharedSegments`: the list behind its lock and the atomic copy of its smallest base. -/
structure SharedSegments where
  list : SegmentList
  minOffset : Int64
deriving DecidableEq

/-- `SharedSegments::add_segment`: the atomic is stored while the lock is held. -/
def SharedSegments.addSegment (shared : SharedSegments) (seg : ReadSegment) : SharedSegments :=
  let (list, minOffset) := shared.list.addSegment seg
  ⟨list, minOffset⟩

/-- The part of `SharedSegments::remove_segment` under the lock: the list without the
segment, and the smallest base the call will store in the atomic once it has dropped
the lock. -/
def SharedSegments.removeLocked (shared : SharedSegments) (offset : Int64) :
    SharedSegments × Option Int64 :=
  match shared.list.removeSegment offset with
  | some ((_, minOffset), list) => ({ shared with list }, some minOffset)
  | none => (shared, none)

/-- The rest of `SharedSegments::remove_segment`, after the lock is dropped. -/
def SharedSegments.storeMin (shared : SharedSegments) : Option Int64 → SharedSegments
  | some minOffset => { shared with minOffset }
  | none => shared

/-- `SharedSegments::remove_segment` with nothing between its two parts. -/
def SharedSegments.removeSegment (shared : SharedSegments) (offset : Int64) : SharedSegments :=
  let (shared, pending) := shared.removeLocked offset
  shared.storeMin pending

/-- `SharedSegments::remove_segments`. -/
def SharedSegments.removeSegments (shared : SharedSegments) (offsets : List Int64) : SharedSegments :=
  offsets.foldl SharedSegments.removeSegment shared

/-- `SharedSegments::from` an empty list. -/
def SharedSegments.empty : SharedSegments := ⟨SegmentList.new, SegmentList.new.minOffset⟩

/-- `FileReplica`, with `segment_max_bytes` read once as `max_segment_size`. -/
structure FileReplica where
  activeSegment : MutableSegment
  prevSegments : SharedSegments
  hw : Int64
  shortCircuit : Bool
  maxRequestSize : Nat
  maxSegmentSize : Nat

/-- A new replica with no segment on disk: `create_or_load_inner` on an empty directory. -/
def FileReplica.create (baseOffset : Int64) (maxRequestSize maxSegmentSize : Nat) : FileReplica :=
  ⟨MutableSegment.create baseOffset maxSegmentSize, SharedSegments.empty, baseOffset, false,
    maxRequestSize, maxSegmentSize⟩

/-- `get_leo`. -/
def FileReplica.getLeo (r : FileReplica) : Int64 := r.activeSegment.endOffset

/-- `get_log_start_offset`: the atomic smallest base, or the active segment's when it is negative. -/
def FileReplica.getLogStartOffset (r : FileReplica) : Int64 :=
  if r.prevSegments.minOffset < 0 then r.activeSegment.baseOffset else r.prevSegments.minOffset

/-- `update_high_watermark`: whether the watermark changed. -/
def FileReplica.updateHighWatermark (r : FileReplica) (offset : Int64) : Bool × FileReplica :=
  if r.hw = offset then (false, r) else (true, { r with hw := offset })

/-- `roll_over`: the active segment, as a read segment, joins the map, and a new active
segment starts at its end offset. -/
def FileReplica.rollOver (r : FileReplica) : FileReplica :=
  let old := r.activeSegment
  { r with
    activeSegment := MutableSegment.create old.endOffset r.maxSegmentSize
    prevSegments := r.prevSegments.addSegment ⟨old.baseOffset, old.endOffset⟩ }

/-- `self.short_circuit = true; return Err(err)`: an error that `write_batch` returns stops
every later append; a panic unwinds past the assignment. -/
def FileReplica.failWith (r : FileReplica) : Failure → FileReplica
  | .error _ => { r with shortCircuit := true }
  | _ => r

section Write

variable {R : Type} [Crc32c] [Encoder R]

/-- The append after a roll-over in `FileReplica::write_batch`: it "should succeed"; when it
does not, the replica is short-circuited. -/
def FileReplica.appendRolled (r : FileReplica) (batch : Batch R) :
    Except Failure Unit × FileReplica × Batch R :=
  match r.activeSegment.appendBatch batch with
  | (.ok true, seg, batch) => (.ok (), { r with activeSegment := seg }, batch)
  | (.ok false, seg, batch) =>
    let f := Failure.error (.other "failed to append even after rollver")
    (.error f, { r with activeSegment := seg }.failWith f, batch)
  | (.error f, seg, batch) => (.error f, { r with activeSegment := seg }.failWith f, batch)

/-- `FileReplica::write_batch` past the short-circuit check: append to the active segment,
and when it is full roll over and append to the new one. -/
def FileReplica.appendActive (r : FileReplica) (batch : Batch R) :
    Except Failure Unit × FileReplica × Batch R :=
  match r.activeSegment.appendBatch batch with
  | (.ok true, seg, batch) => (.ok (), { r with activeSegment := seg }, batch)
  | (.ok false, seg, batch) => { r with activeSegment := seg }.rollOver.appendRolled batch
  | (.error f, seg, batch) => (.error f, { r with activeSegment := seg }.failWith f, batch)

/-- `FileReplica::write_batch`. -/
def FileReplica.writeBatch (r : FileReplica) (batch : Batch R) :
    Except Failure Unit × FileReplica × Batch R :=
  if r.shortCircuit then (.error (.error .shortCircuited), r, batch) else r.appendActive batch

/-- The size check of `write_recordset`, batch by batch: the total size, or the first
batch too large for a segment or a request. -/
def FileReplica.checkBatches (r : FileReplica) : List (Batch R) → Nat → Except Failure Nat
  | [], total => .ok total
  | batch :: rest, total =>
    match Encoder.writeSize batch with
    | none => .error .diverge
    | some batchSize =>
      if r.maxSegmentSize < batchSize then
        -- `batch_size.try_into()?` into the error's `u32` field
        if batchSize < 2 ^ 32 then .error (.error (.batchExceededSegment batchSize r.maxSegmentSize))
        else .error (.error (.other "out of range integral type conversion attempted"))
      else if r.maxRequestSize < batchSize then .error (.error (.batchTooBig r.maxRequestSize))
      else r.checkBatches rest (total + batchSize)

/-- The write loop of `write_recordset`: it stops at the first failing batch. -/
def FileReplica.writeBatches (r : FileReplica) : List (Batch R) →
    Except Failure Unit × FileReplica × List (Batch R)
  | [] => (.ok (), r, [])
  | batch :: rest =>
    match r.writeBatch batch with
    | (.ok (), r, batch) =>
      let (result, r, rest) := r.writeBatches rest
      (result, r, batch :: rest)
    | (.error f, r, batch) => (.error f, r, batch :: rest)

/-- `write_recordset`: the bytes announced, the replica, and the record set with the base
offsets the write gave its batches. -/
def FileReplica.writeRecordset (r : FileReplica) (records : RecordSet R) (updateHighwatermark : Bool) :
    Except Failure Nat × FileReplica × RecordSet R :=
  match r.checkBatches records.batches 0 with
  | .error f => (.error f, r, records)
  | .ok totalSize =>
    match r.writeBatches records.batches with
    | (.error f, r, batches) => (.error f, r, ⟨batches⟩)
    | (.ok (), r, batches) =>
      if updateHighwatermark then (.ok totalSize, (r.updateHighWatermark r.getLeo).2, ⟨batches⟩)
      else (.ok totalSize, r, ⟨batches⟩)

end Write

/-! ### What a write does to the replica -/

section Spec

variable {R : Type} [Crc32c] [Encoder R]

omit [Crc32c] [Encoder R] in
@[simp] theorem FileReplica.getLeo_rollOver (r : FileReplica) : r.rollOver.getLeo = r.getLeo := rfl

omit [Crc32c] [Encoder R] in
@[simp] theorem FileReplica.shortCircuit_failWith (r : FileReplica) (f : Failure) :
    (r.failWith f).shortCircuit = (r.shortCircuit || f matches .error _) := by
  cases f <;> simp [FileReplica.failWith]

omit [Crc32c] [Encoder R] in
@[simp] theorem FileReplica.hw_failWith (r : FileReplica) (f : Failure) : (r.failWith f).hw = r.hw := by
  cases f <;> rfl

/-- A short-circuited replica refuses every batch and stays as it is. -/
theorem FileReplica.writeBatch_shortCircuited {r : FileReplica} (h : r.shortCircuit = true) (batch : Batch R) :
    r.writeBatch batch = (.error (.error .shortCircuited), r, batch) := by
  simp [FileReplica.writeBatch, h]

/-- The append after a roll-over: the batch lands at the new segment's base offset, or the
call fails. -/
theorem FileReplica.appendRolled_ok {r r' : FileReplica} {batch batch' : Batch R}
    (h : r.appendRolled batch = (.ok (), r', batch')) :
    batch.recordsLen ≠ 0 ∧ batch' = { batch with baseOffset := r.getLeo } ∧
      r'.getLeo = r.getLeo + Int64.ofNat batch.recordsLen ∧ r'.hw = r.hw ∧
      r'.shortCircuit = r.shortCircuit := by
  rcases MutableSegment.appendBatch_cases r.activeSegment batch with
    ⟨_, hA⟩ | ⟨_, hA⟩ | ⟨h0, bytes, index, _, _, hA⟩ | ⟨_, f, seg', hA, -⟩
  · simp [FileReplica.appendRolled, hA, FileReplica.failWith] at h
  · simp [FileReplica.appendRolled, hA, FileReplica.failWith] at h
  · simp only [FileReplica.appendRolled, hA] at h
    obtain ⟨rfl, rfl⟩ := h
    exact ⟨h0, rfl, rfl, rfl, rfl⟩
  · cases f <;> simp [FileReplica.appendRolled, hA, FileReplica.failWith] at h

/-- **A batch written goes to the log end offset**, which moves past its records; the active
segment may have rolled over on the way. -/
theorem FileReplica.appendActive_ok {r r' : FileReplica} {batch batch' : Batch R}
    (h : r.appendActive batch = (.ok (), r', batch')) :
    batch.recordsLen ≠ 0 ∧ batch' = { batch with baseOffset := r.getLeo } ∧
      r'.getLeo = r.getLeo + Int64.ofNat batch.recordsLen ∧ r'.hw = r.hw ∧
      r'.shortCircuit = r.shortCircuit := by
  rcases MutableSegment.appendBatch_cases r.activeSegment batch with
    ⟨_, hA⟩ | ⟨h0, hA⟩ | ⟨h0, bytes, index, _, _, hA⟩ | ⟨_, f, seg', hA, -⟩
  · simp [FileReplica.appendActive, hA, FileReplica.failWith] at h
  · -- full: the batch goes to the segment the roll-over starts at the same end offset
    simp only [FileReplica.appendActive, hA] at h
    obtain ⟨-, hplaced, hleo, hhw, hsc⟩ := FileReplica.appendRolled_ok h
    exact ⟨h0, hplaced, hleo, hhw, hsc⟩
  · simp only [FileReplica.appendActive, hA] at h
    obtain ⟨rfl, rfl⟩ := h
    exact ⟨h0, rfl, rfl, rfl, rfl⟩
  · cases f <;> simp [FileReplica.appendActive, hA, FileReplica.failWith] at h

theorem FileReplica.writeBatch_ok {r r' : FileReplica} {batch batch' : Batch R}
    (h : r.writeBatch batch = (.ok (), r', batch')) :
    r.shortCircuit = false ∧ batch.recordsLen ≠ 0 ∧ batch' = { batch with baseOffset := r.getLeo } ∧
      r'.getLeo = r.getLeo + Int64.ofNat batch.recordsLen ∧ r'.hw = r.hw ∧
      r'.shortCircuit = r.shortCircuit := by
  cases hsc : r.shortCircuit
  case true => simp [FileReplica.writeBatch, hsc] at h
  simp only [FileReplica.writeBatch, hsc, Bool.false_eq_true, if_false] at h
  obtain ⟨h0, hplaced, hleo, hhw, hsc'⟩ := FileReplica.appendActive_ok h
  exact ⟨rfl, h0, hplaced, hleo, hhw, hsc'.trans hsc⟩

/-- The errors `write_batch` returns: the short circuit, an empty batch, a batch that fits no
segment, and a batch below the segment's base. None of them is a size check of
`write_recordset`. -/
theorem FileReplica.writeBatch_error {r : FileReplica} {batch : Batch R} {e : StorageError}
    (h : (r.writeBatch batch).1 = .error (.error e)) :
    e = .shortCircuited ∨ e = .emptyBatch ∨ e = .other "failed to append even after rollver" ∨
      ∃ offset, e = .invalidBaseOffsetMinimum offset := by
  cases hsc : r.shortCircuit
  case true =>
    rw [FileReplica.writeBatch_shortCircuited hsc] at h
    simp at h
    exact .inl h.symm
  simp only [FileReplica.writeBatch, hsc, Bool.false_eq_true, if_false] at h
  rcases MutableSegment.appendBatch_cases r.activeSegment batch with
    ⟨_, hA⟩ | ⟨_, hA⟩ | ⟨_, bytes, index, _, _, hA⟩ | ⟨_, f, seg', hA, hf⟩
  · simp [FileReplica.appendActive, hA] at h
    exact .inr (.inl h.symm)
  · simp only [FileReplica.appendActive, hA] at h
    set rolled := ({ r with activeSegment := r.activeSegment } : FileReplica).rollOver
    set placed : Batch R := { batch with baseOffset := r.activeSegment.endOffset }
    rcases MutableSegment.appendBatch_cases rolled.activeSegment placed with
      ⟨_, hB⟩ | ⟨_, hB⟩ | ⟨_, bytes, index, _, _, hB⟩ | ⟨_, f, seg', hB, hf⟩
    · simp [FileReplica.appendRolled, hB] at h
      exact .inr (.inl h.symm)
    · simp [FileReplica.appendRolled, hB] at h
      exact .inr (.inr (.inl h.symm))
    · simp [FileReplica.appendRolled, hB] at h
    · simp only [FileReplica.appendRolled, hB] at h
      exact .inr (.inr (.inr ⟨_, hf e (Except.error.inj h)⟩))
  · simp [FileReplica.appendActive, hA] at h
  · simp only [FileReplica.appendActive, hA] at h
    exact .inr (.inr (.inr ⟨_, hf e (Except.error.inj h)⟩))

/-- Once set, the short circuit stays. -/
theorem FileReplica.shortCircuit_writeBatch {r : FileReplica} (h : r.shortCircuit = true) (batch : Batch R) :
    (r.writeBatch batch).2.1.shortCircuit = true := by
  rw [FileReplica.writeBatch_shortCircuited h]
  exact h

/-! ### `write_recordset` -/

/-- The batches of a record set with the base offsets a log ending at `leo` gives them, one
after the other. -/
def placeBatches : Int64 → List (Batch R) → List (Batch R)
  | _, [] => []
  | leo, batch :: rest =>
    { batch with baseOffset := leo } :: placeBatches (leo + Int64.ofNat batch.recordsLen) rest

/-- **The write loop places each batch at the log end offset it finds**, and the log end
offset moves past all their records. -/
theorem FileReplica.writeBatches_ok :
    ∀ {r r' : FileReplica} {batches batches' : List (Batch R)},
      r.writeBatches batches = (.ok (), r', batches') →
      batches' = placeBatches r.getLeo batches ∧
        r'.getLeo = r.getLeo + Int64.ofNat (batches.map Batch.recordsLen).sum ∧ r'.hw = r.hw
  | r, r', [], batches', h => by
    simp only [FileReplica.writeBatches, Prod.mk.injEq] at h
    obtain ⟨-, rfl, rfl⟩ := h
    simp [placeBatches]
  | r, r', batch :: rest, batches', h => by
    -- one batch, then the induction hypothesis on the rest from the replica it leaves
    cases hw : r.writeBatch batch with
    | mk res tail =>
      obtain ⟨r1, batch1⟩ := tail
      cases res with
      | error f => simp [FileReplica.writeBatches, hw] at h
      | ok u =>
        obtain ⟨-, -, hplaced, hleo, hhw, -⟩ := FileReplica.writeBatch_ok hw
        simp only [FileReplica.writeBatches, hw] at h
        cases hrest : r1.writeBatches rest with
        | mk res' tail' =>
          obtain ⟨r2, rest'⟩ := tail'
          rw [hrest] at h
          simp only [Prod.mk.injEq] at h
          obtain ⟨rfl, rfl, rfl⟩ := h
          obtain ⟨hrest', hleo', hhw'⟩ := FileReplica.writeBatches_ok hrest
          refine ⟨by rw [hplaced, hrest', hleo]; rfl, ?_, hhw'.trans hhw⟩
          rw [hleo', hleo, List.map_cons, List.sum_cons, Int64.ofNat_add]
          grind

/-- The errors of the write loop are those of `write_batch`. -/
theorem FileReplica.writeBatches_error :
    ∀ {r : FileReplica} {batches : List (Batch R)} {e : StorageError},
      (r.writeBatches batches).1 = .error (.error e) →
      e = .shortCircuited ∨ e = .emptyBatch ∨ e = .other "failed to append even after rollver" ∨
        ∃ offset, e = .invalidBaseOffsetMinimum offset
  | r, [], e, h => by simp [FileReplica.writeBatches] at h
  | r, batch :: rest, e, h => by
    cases hw : r.writeBatch batch with
    | mk res tail =>
      obtain ⟨r1, batch1⟩ := tail
      cases res with
      | error f =>
        simp only [FileReplica.writeBatches, hw] at h
        exact FileReplica.writeBatch_error (by rw [hw]; exact h)
      | ok u =>
        simp only [FileReplica.writeBatches, hw] at h
        exact FileReplica.writeBatches_error h

/-- The size checks of `write_recordset`: their errors. -/
def StorageError.IsSizeCheck : StorageError → Prop
  | .batchExceededSegment _ _ => True
  | .batchTooBig _ => True
  | _ => False

/-- **A record set refused by the size checks leaves the replica and the record set as they
were**: no batch was written before the checks ended, and the write loop never returns
their errors. -/
theorem FileReplica.writeRecordset_sizeCheck {r : FileReplica} {records : RecordSet R} {update : Bool}
    {e : StorageError} (hsize : e.IsSizeCheck)
    (h : (r.writeRecordset records update).1 = .error (.error e)) :
    (r.writeRecordset records update).2 = (r, records) := by
  unfold FileReplica.writeRecordset at h ⊢
  cases hcheck : r.checkBatches records.batches 0 with
  | error f => rfl
  | ok total =>
    simp only [hcheck] at h
    cases hw : r.writeBatches records.batches with
    | mk res tail =>
      obtain ⟨r', batches⟩ := tail
      cases res with
      | error f =>
        simp only [hw] at h
        have herr : (r.writeBatches records.batches).1 = .error (.error e) := by
          rw [hw, Except.error.inj h]
        rcases FileReplica.writeBatches_error herr with
          rfl | rfl | rfl | ⟨_, rfl⟩ <;> exact absurd hsize id
      | ok u => cases update <;> simp [hw] at h

/-- **A successful `write_recordset` moves the log end offset by the record set's
`total_records()`**, each batch placed where the previous one ended. -/
theorem FileReplica.writeRecordset_ok {r r' : FileReplica} {records records' : RecordSet R}
    {update : Bool} {total : Nat} (h : r.writeRecordset records update = (.ok total, r', records')) :
    records'.batches = placeBatches r.getLeo records.batches ∧
      r'.getLeo = r.getLeo + Int64.ofNat records.totalRecords ∧
      r'.hw = if update then r'.getLeo else r.hw := by
  unfold FileReplica.writeRecordset at h
  cases hcheck : r.checkBatches records.batches 0 with
  | error f => simp [hcheck] at h
  | ok total' =>
    simp only [hcheck] at h
    cases hw : r.writeBatches records.batches with
    | mk res tail =>
      obtain ⟨r1, batches⟩ := tail
      cases res with
      | error f => simp [hw] at h
      | ok u =>
        obtain ⟨hplaced, hleo, hhw⟩ := FileReplica.writeBatches_ok hw
        cases update with
        | false =>
          simp only [hw, Bool.false_eq_true, if_false, Prod.mk.injEq] at h
          obtain ⟨-, rfl, rfl⟩ := h
          exact ⟨hplaced, hleo, by simpa using hhw⟩
        | true =>
          simp only [hw, if_true, Prod.mk.injEq] at h
          obtain ⟨-, rfl, rfl⟩ := h
          refine ⟨hplaced, ?_, ?_⟩
          · simp only [FileReplica.updateHighWatermark]
            split <;> exact hleo
          · simp only [FileReplica.updateHighWatermark, if_true]
            split <;> simp_all [FileReplica.getLeo]

/-- A short-circuited replica refuses every record set that passes the size checks and
has a batch, and stays as it is. -/
theorem FileReplica.writeRecordset_shortCircuited {r : FileReplica} (hsc : r.shortCircuit = true)
    {records : RecordSet R} {total : Nat} (hcheck : r.checkBatches records.batches 0 = .ok total)
    (hne : records.batches ≠ []) (update : Bool) :
    r.writeRecordset records update = (.error (.error .shortCircuited), r, records) := by
  obtain ⟨batch, rest, hb⟩ := List.exists_cons_of_ne_nil hne
  obtain ⟨batches⟩ := records
  subst hb
  simp [FileReplica.writeRecordset, hcheck, FileReplica.writeBatches,
    FileReplica.writeBatch_shortCircuited hsc]

/-- **An empty batch short-circuits the replica**: `append_batch` refuses it with an
error, and `write_batch` sets `short_circuit` on every error of the active segment. -/
theorem FileReplica.writeRecordset_emptyBatch {r : FileReplica} (hsc : r.shortCircuit = false)
    {batch : Batch R} {rest : List (Batch R)} {total : Nat}
    (hcheck : r.checkBatches (batch :: rest) 0 = .ok total) (hempty : batch.recordsLen = 0)
    (update : Bool) :
    (r.writeRecordset ⟨batch :: rest⟩ update).1 = .error (.error .emptyBatch) ∧
      (r.writeRecordset ⟨batch :: rest⟩ update).2.1.shortCircuit = true := by
  have happ : r.activeSegment.appendBatch batch = (.error (.error .emptyBatch), r.activeSegment, batch) := by
    simp [MutableSegment.appendBatch, hempty]
  simp [FileReplica.writeRecordset, hcheck, FileReplica.writeBatches, FileReplica.writeBatch, hsc,
    FileReplica.appendActive, happ, FileReplica.failWith]

/-- No append moves the high watermark, whatever comes of it. -/
theorem FileReplica.hw_appendRolled (r : FileReplica) (batch : Batch R) :
    (r.appendRolled batch).2.1.hw = r.hw := by
  unfold FileReplica.appendRolled
  split <;> simp

theorem FileReplica.hw_writeBatch (r : FileReplica) (batch : Batch R) : (r.writeBatch batch).2.1.hw = r.hw := by
  unfold FileReplica.writeBatch FileReplica.appendActive
  split
  · rfl
  · split
    · rfl
    · rw [FileReplica.hw_appendRolled]
      rfl
    · simp

theorem FileReplica.hw_writeBatches : ∀ (r : FileReplica) (batches : List (Batch R)),
    (r.writeBatches batches).2.1.hw = r.hw
  | r, [] => rfl
  | r, batch :: rest => by
    have hfirst := r.hw_writeBatch batch
    rcases hw : r.writeBatch batch with ⟨res, r1, batch1⟩
    rw [hw] at hfirst
    cases res with
    | ok u =>
      simp only [FileReplica.writeBatches, hw]
      rw [FileReplica.hw_writeBatches r1 rest]
      exact hfirst
    | error f =>
      simp only [FileReplica.writeBatches, hw]
      exact hfirst

/-- **A write that does not update the high watermark keeps it**, whether it succeeds, fails
part way or is refused. -/
theorem FileReplica.hw_writeRecordset (r : FileReplica) (records : RecordSet R) :
    (r.writeRecordset records false).2.1.hw = r.hw := by
  have hloop := r.hw_writeBatches records.batches
  unfold FileReplica.writeRecordset
  split
  · rfl
  · rcases hw : r.writeBatches records.batches with ⟨res, r1, batches⟩
    rw [hw] at hloop
    cases res <;> exact hloop

end Spec

/-- A replica with a kilobyte per segment and per request. -/
def smallReplica : FileReplica := FileReplica.create 0 1024 1024

/-- A batch whose header announces no record: `last_offset_delta` is `-1`, its default. -/
def emptyBatchSet : RecordSet RawRecords := ⟨[default]⟩

/-- One batch of one record. -/
def oneBatchSet : RecordSet RawRecords :=
  ⟨[{ (default : Batch RawRecords) with
      header := { (default : BatchHeader) with lastOffsetDelta := 0 }, records := ⟨[1, 2, 3]⟩ }]⟩

/-- The batch of `oneBatchSet` encodes in 60 bytes, far below `2 ^ 31`. -/
theorem oneBatchSet_encodes_small :
    ∀ b ∈ oneBatchSet.batches, ∀ bytes, Encoder.encode b = some bytes → bytes.length < 2 ^ 31 := by
  intro b hb bytes henc
  have hlen : (Encoder.encode b).map List.length = some 60 := by
    simp only [oneBatchSet, List.mem_singleton] at hb
    subst hb
    decide +kernel
  rw [henc, Option.map_some, Option.some.injEq] at hlen
  omega

/-- `oneBatchSet` is written to a fresh replica, but not after an empty batch was refused. -/
theorem emptyBatch_blocks_later_writes :
    (smallReplica.writeRecordset oneBatchSet false).1 = .ok 60 ∧
    (smallReplica.writeRecordset emptyBatchSet false).1 = .error (.error .emptyBatch) ∧
    ((smallReplica.writeRecordset emptyBatchSet false).2.1.writeRecordset oneBatchSet false).1 =
      .error (.error .shortCircuited) := by
  decide +kernel

end Fluvio.Storage
