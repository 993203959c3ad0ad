import Fluvio.Storage.Index

/-!
The active segment with its index (`segment.rs`: `MutableSegment::create`, `append_batch`,
`convert_to_segment`), and the lookup of an offset after any run of appends.

`IndexedSegment` is a `MutableSegment` with the entries of its index. Appending a batch
writes its encoding at the end of the log file and hands `write_index` the batch's offset
relative to the segment's base, the file position it starts at and its length. Over a run
of appends (`IndexedSegment.Inv`) the encodings fill the file one after the other, their
offsets follow each other from the base, and every index entry is the mark of a batch.
`write_index`'s assertion that relative offsets grow keeps them below `2 ^ 32`, so a mark
never wraps (`IndexedSegment.Inv.appendBatch`).

With batches encoded in fewer than `2 ^ 31` bytes, a lookup in the segment, or in the read
segment it becomes, finds the batch that holds the offset at the position it was written
to (`IndexedSegment.findOffsetPosition_appended`). A batch of `2 ^ 31` bytes or more has a
negative `batch_len` and the header scan fails on it (`hugeBatch_lookup_fails`).
-/

namespace Fluvio.Storage

open Fluvio.Protocol

/-- A `MutableSegment` with the entries of its `MutLogIndex`. -/
structure IndexedSegment where
  segment : MutableSegment
  entries : IndexEntries
deriving DecidableEq, Repr

/-- `MutableSegment::create`: `MutLogIndex::create` refuses an index of no bytes and has
`index_max_bytes / 8` slots. -/
def IndexedSegment.create (baseOffset : Int64) (segmentMaxBytes indexMaxIntervalBytes indexMaxBytes : Nat) :
    Except String IndexedSegment :=
  if indexMaxBytes = 0 then .error "index max bytes must be greater than 0"
  else .ok ⟨MutableSegment.create baseOffset segmentMaxBytes, ⟨indexMaxIntervalBytes, indexMaxBytes / 8, 0, []⟩⟩

/-- The active segment as a `Segment`: its log file and its index. -/
def IndexedSegment.toSegment (seg : IndexedSegment) : Segment IndexEntries MutFileRecords :=
  ⟨seg.segment.msgLog, seg.entries, seg.segment.baseOffset, seg.segment.endOffset⟩

/-- `MutableSegment::convert_to_segment`: the index file is shrunk to its filled slots, and
both files are opened for reading with the segment's offsets. -/
def IndexedSegment.convertToSegment (seg : IndexedSegment) : Segment LogIndex FileRecordsSlice :=
  ⟨⟨seg.segment.msgLog.bytes⟩, LogIndex.openFromOffset seg.entries.entries, seg.segment.baseOffset,
    seg.segment.endOffset⟩

/-- A batch's base offset and last offset delta. -/
def Batch.span {R : Type} (b : Batch R) : Int64 × Int32 := (b.baseOffset, b.header.lastOffsetDelta)

section Append

variable {R : Type} [Crc32c] [Encoder R]

/-- `MutableSegment::append_batch` with the index entries: after a write, `write_index` gets
the batch's relative offset, the position the file had before the write, and `batch_len`. -/
def IndexedSegment.appendBatch (seg : IndexedSegment) (batch : Batch R) :
    Except Failure Bool × IndexedSegment × Batch R :=
  let relativeOffsetInSegment : Int32 := (seg.segment.endOffset - seg.segment.baseOffset).toInt32
  let startFilePos := seg.segment.msgLog.bytes.length
  match seg.segment.appendBatch batch with
  | (.ok true, segment, batch) =>
    -- `batch_len`: `write_batch` appended exactly that many bytes
    let batchLen := segment.msgLog.bytes.length - startFilePos
    (.ok true, ⟨segment, seg.entries.writeIndex relativeOffsetInSegment.toUInt32.toNat startFilePos (batchLen % 2 ^ 32)⟩,
      batch)
  | (result, segment, batch) => (result, ⟨segment, seg.entries⟩, batch)

/-- Appending batches one after the other, every one of them written: the segment, and the
batches as placed. -/
def IndexedSegment.appendAll (seg : IndexedSegment) : List (Batch R) → Option (IndexedSegment × List (Batch R))
  | [] => some (seg, [])
  | batch :: rest =>
    match seg.appendBatch batch with
    | (.ok true, seg', placed) => (seg'.appendAll rest).map fun (last, placedRest) => (last, placed :: placedRest)
    | _ => none

/-- A write through the index is the segment's write, and the entries are given the batch. -/
theorem IndexedSegment.appendBatch_ok {seg seg' : IndexedSegment} {batch placed : Batch R}
    (h : seg.appendBatch batch = (.ok true, seg', placed)) :
    seg.segment.appendBatch batch = (.ok true, seg'.segment, placed) ∧
      seg'.entries = seg.entries.writeIndex (seg.segment.endOffset - seg.segment.baseOffset).toInt32.toUInt32.toNat
        seg.segment.msgLog.bytes.length
        ((seg'.segment.msgLog.bytes.length - seg.segment.msgLog.bytes.length) % 2 ^ 32) := by
  rcases hA : seg.segment.appendBatch batch with ⟨result, segment, b⟩
  -- only a write returns `Ok(true)`
  rcases result with e | _ | _
  all_goals simp only [IndexedSegment.appendBatch, hA, Prod.mk.injEq, reduceCtorEq, Except.ok.injEq,
    Bool.false_eq_true, false_and, true_and] at h
  obtain ⟨rfl, rfl⟩ := h
  exact ⟨rfl, rfl⟩

/-- An append moves the end offset past the batch's records. -/
theorem IndexedSegment.endOffset_appendBatch {seg seg' : IndexedSegment} {batch placed : Batch R}
    (h : seg.appendBatch batch = (.ok true, seg', placed)) :
    seg'.segment.endOffset = seg.segment.endOffset + Int64.ofNat batch.recordsLen ∧ batch.recordsLen ≠ 0 := by
  obtain ⟨hseg, -⟩ := IndexedSegment.appendBatch_ok h
  rcases MutableSegment.appendBatch_cases seg.segment batch with
    ⟨_, hA⟩ | ⟨_, hA⟩ | ⟨h0, bytes, index, -, -, hA⟩ | ⟨_, f, seg1, hA, -⟩
  · rw [hA] at hseg
    cases hseg
  · rw [hA] at hseg
    simp at hseg
  · rw [hA] at hseg
    simp only [Prod.mk.injEq, true_and] at hseg
    rw [← hseg.1]
    exact ⟨rfl, h0⟩
  · rw [hA] at hseg
    cases hseg

/-- A write of the segment is a write through the index. -/
theorem IndexedSegment.appendBatch_of_ok {seg : IndexedSegment} {batch placed : Batch R} {segment : MutableSegment}
    (h : seg.segment.appendBatch batch = (.ok true, segment, placed)) :
    seg.appendBatch batch = (.ok true,
      ⟨segment, seg.entries.writeIndex (seg.segment.endOffset - seg.segment.baseOffset).toInt32.toUInt32.toNat
        seg.segment.msgLog.bytes.length ((segment.msgLog.bytes.length - seg.segment.msgLog.bytes.length) % 2 ^ 32)⟩,
      placed) := by
  unfold IndexedSegment.appendBatch
  rw [h]

end Append

/-! ### The index's check on relative offsets -/

/-- What a `write_index` that passes its check tells: the relative offset grew, or both it and
the last one are `0`. -/
theorem MutLogIndex.writeIndex_ok {index index' : MutLogIndex} {d : Nat} (h : index.writeIndex d = (.ok (), index')) :
    index' = ⟨d⟩ ∧ (0 < d → index.lastOffsetDelta < d) ∧ (d = 0 → index.lastOffsetDelta = 0) := by
  unfold MutLogIndex.writeIndex at h
  split at h
  · split at h
    · cases h
      exact ⟨rfl, fun _ => by assumption, by omega⟩
    · cases h
  · split at h
    · cases h
      exact ⟨rfl, by omega, fun _ => by assumption⟩
    · cases h

section Append

variable {R : Type} [Crc32c] [Encoder R]

/-- A written batch passed the index's check with its relative offset. -/
theorem MutableSegment.appendBatch_ok_index {seg seg' : MutableSegment} {batch placed : Batch R}
    (h : seg.appendBatch batch = (.ok true, seg', placed)) :
    seg.index.writeIndex (seg.endOffset - seg.baseOffset).toInt32.toUInt32.toNat = (.ok (), seg'.index) := by
  unfold MutableSegment.appendBatch at h
  split at h
  · cases h
  · dsimp only at h
    split at h
    · cases h
    · cases h
    · split at h
      · cases h
      · rename_i index hidx
        simp only [Prod.mk.injEq] at h
        obtain ⟨-, rfl, -⟩ := h
        exact hidx

end Append

/-! ### Runs of appends -/

/-- A batch announces at most `2 ^ 31` records, and a non-empty one its last offset delta plus
one. -/
theorem Batch.recordsLen_spec {R : Type} {b : Batch R} (h : b.recordsLen ≠ 0) :
    b.recordsLen ≤ 2 ^ 31 ∧ 0 ≤ b.header.lastOffsetDelta.toInt ∧
      (b.recordsLen : Int) = b.header.lastOffsetDelta.toInt + 1 := by
  unfold Batch.recordsLen at h ⊢
  have hlt := b.header.lastOffsetDelta.toInt_lt
  split at h
  · exact absurd rfl h
  · rename_i hnonneg
    rw [if_neg hnonneg]
    rw [Int32.lt_iff_toInt_lt] at hnonneg
    have h0 : 0 ≤ b.header.lastOffsetDelta.toInt := by simpa using hnonneg
    omega

/-- A batch added after a layout, where it ended. -/
theorem Layout.append_single : ∀ {start mid : Int} {bs : List (Int64 × Int32)} {b : Int64 × Int32},
    Layout start bs mid → b.1.toInt = mid → 0 ≤ b.2.toInt → Layout start (bs ++ [b]) (mid + b.2.toInt + 1)
  | _, _, [], _, h, hb, hlod => by
    simp only [Layout] at h
    subst h
    exact ⟨hb, hlod, rfl⟩
  | _, _, _ :: _, _, ⟨hbase, hlod', hrest⟩, hb, hlod => ⟨hbase, hlod', Layout.append_single hrest hb hlod⟩

/-- The relative offset `(end_offset - base_offset) as i32 as u32` of a segment `S` records
past a base below `2 ^ 63`. -/
theorem relativeOffset_eq {base endOffset : Int64} {S : Nat} (hbase : 0 ≤ base.toInt)
    (hend : endOffset.toInt = base.toInt + S) :
    (endOffset - base).toInt32.toUInt32.toNat = S % 2 ^ 32 := by
  have hlt := Int64.toInt_lt endOffset
  have hsub : (endOffset - base).toInt = S := by
    rw [Bits.toInt_sub_of_range (by omega) (by omega)]
    omega
  have hnat := Bits.toInt_eq_toNat_of_nonneg (x := endOffset - base) (by omega)
  rw [Bits.toNat_toUInt32_toInt32]
  omega

section Append

variable {R : Type} [Crc32c] [Encoder R]

/-- What appending batches to a new segment at `base` leaves: the encodings of the batches
as placed, each shorter than `2 ^ 31` bytes, fill the log file; the batches follow each
other from the base, `S` records in all and `L` in the last; the index's last relative
offset is the last batch's, below `2 ^ 32`; and the entries are marks of the batches. -/
structure IndexedSegment.Inv (base : Int64) (seg : IndexedSegment) (chunks : List (List UInt8))
    (placed : List (Batch R)) (S L : Nat) : Prop where
  encodes : List.Forall₂ (fun c p => Encoder.encode p = some c) chunks placed
  small : ∀ c ∈ chunks, c.length < 2 ^ 31
  bytes : seg.segment.msgLog.bytes = chunks.flatten
  baseOffset : seg.segment.baseOffset = base
  layout : Layout base.toInt (placed.map Batch.span) (base.toInt + S)
  endOffset : seg.segment.endOffset.toInt = base.toInt + S
  lastOffsetDelta : seg.segment.index.lastOffsetDelta = S - L
  lastBelow : S - L < 2 ^ 32
  lastRecords : L ≤ 2 ^ 31 ∧ (L = 0 → S = 0)
  entries : seg.entries.entries.Sublist (marks base.toInt 0 chunks (placed.map Batch.span))

/-- A new segment holds nothing. -/
theorem IndexedSegment.Inv.create {base : Int64} {segmentMaxBytes indexMaxIntervalBytes indexMaxBytes : Nat}
    {seg : IndexedSegment} (h : IndexedSegment.create base segmentMaxBytes indexMaxIntervalBytes indexMaxBytes = .ok seg) :
    seg.Inv base [] ([] : List (Batch R)) 0 0 := by
  unfold IndexedSegment.create at h
  split at h
  · cases h
  · cases h
    exact ⟨.nil, by simp, rfl, rfl, by simp [Layout], by simp [MutableSegment.create], rfl, by decide,
      by decide, by simp [marks]⟩

/-- **One append keeps the invariant.** The index's check passed with the relative offset
`S % 2 ^ 32`; had `S` reached `2 ^ 32`, that would be below the last batch's relative offset,
as no batch holds more than `2 ^ 31` records. So the offset is `S`, the new batch's mark. -/
theorem IndexedSegment.Inv.appendBatch (hR : SizeAgrees R) {base : Int64} (hbase : 0 ≤ base.toInt)
    {seg seg' : IndexedSegment} {chunks : List (List UInt8)} {placed : List (Batch R)} {S L : Nat}
    {batch placed1 : Batch R} (hinv : seg.Inv base chunks placed S L)
    (hsmall : ∀ bytes, Encoder.encode batch = some bytes → bytes.length < 2 ^ 31)
    (hbound : base.toInt + S + batch.recordsLen < 2 ^ 63) (h : seg.appendBatch batch = (.ok true, seg', placed1)) :
    ∃ c, seg'.Inv base (chunks ++ [c]) (placed ++ [placed1]) (S + batch.recordsLen) batch.recordsLen := by
  obtain ⟨hseg, hentries⟩ := IndexedSegment.appendBatch_ok h
  have hidx := MutableSegment.appendBatch_ok_index hseg
  rcases MutableSegment.appendBatch_cases seg.segment batch with
    ⟨_, hA⟩ | ⟨_, hA⟩ | ⟨h0, bytes, index, henc, -, hA⟩ | ⟨_, f, seg1, hA, -⟩
  · rw [hA] at hseg
    cases hseg
  · rw [hA] at hseg
    simp at hseg
  rotate_left
  · rw [hA] at hseg
    cases hseg
  rw [hA] at hseg
  simp only [Prod.mk.injEq, true_and] at hseg
  obtain ⟨hseg', rfl⟩ := hseg
  obtain ⟨hn, hlod, hnlod⟩ := Batch.recordsLen_spec h0
  -- the check on the relative offset `S % 2 ^ 32`
  have hrel := @relativeOffset_eq base seg.segment.endOffset S hbase hinv.endOffset
  rw [hinv.baseOffset, hrel] at hidx hentries
  obtain ⟨-, hgrew, hzero⟩ := MutLogIndex.writeIndex_ok hidx
  rw [hinv.lastOffsetDelta] at hgrew hzero
  have hS : S < 2 ^ 32 := by
    have := hinv.lastBelow
    have := hinv.lastRecords
    by_contra hge
    rcases Nat.eq_zero_or_pos (S % 2 ^ 32) with hz | hp
    · have := hzero hz
      omega
    · have := hgrew hp
      omega
  rw [Nat.mod_eq_of_lt hS] at hidx hentries
  -- the placed batch is as short as the batch
  have hlen : bytes.length < 2 ^ 31 := by
    have hwith := Batch.encode_length_withBase (hR batch.records) seg.segment.endOffset
    rw [henc, Option.map_some] at hwith
    obtain ⟨bytes0, h0', hl⟩ := Option.map_eq_some_iff.mp hwith.symm
    rw [← hl]
    exact hsmall bytes0 h0'
  have hendInt : seg.segment.endOffset.toInt = base.toInt + S := hinv.endOffset
  have hspan : (Batch.span ({ batch with baseOffset := seg.segment.endOffset } : Batch R)).1.toInt = base.toInt + S :=
    hendInt
  refine ⟨bytes, ⟨List.rel_append hinv.encodes (.cons henc .nil), ?_, ?_, ?_, ?_, ?_, ?_, ?_, ?_, ?_⟩⟩
  · intro c hc
    rcases List.mem_append.mp hc with hc | hc
    · exact hinv.small c hc
    · rw [List.mem_singleton.mp hc]
      exact hlen
  · rw [← hseg', hinv.bytes, List.flatten_append, List.flatten_singleton]
  · rw [← hseg']
    exact hinv.baseOffset
  · rw [List.map_append, List.map_singleton]
    have hlay := Layout.append_single hinv.layout hspan hlod
    have hsum : base.toInt + S + (Batch.span ({ batch with baseOffset := seg.segment.endOffset } : Batch R)).2.toInt + 1 =
        base.toInt + ↑(S + batch.recordsLen) := by
      simp only [Batch.span]
      push_cast
      omega
    rw [hsum] at hlay
    exact hlay
  · rw [← hseg']
    rw [Bits.toInt_add_ofNat (by omega) (by omega), hendInt]
    push_cast
    omega
  · rw [(MutLogIndex.writeIndex_ok hidx).1]
    simp
  · omega
  · exact ⟨hn, fun h => absurd h h0⟩
  · -- the entry written, if any, is the new batch's mark
    have hmarks := @marks_append base.toInt bytes
      (Batch.span ({ batch with baseOffset := seg.segment.endOffset } : Batch R)) 0 chunks (placed.map Batch.span)
      (by rw [List.length_map]; exact hinv.encodes.length_eq)
    rw [List.map_append, List.map_singleton, hmarks, hentries]
    have hmark : ((Batch.span ({ batch with baseOffset := seg.segment.endOffset } : Batch R)).1.toInt - base.toInt).toNat = S := by
      rw [hspan]
      omega
    rcases IndexEntries.writeIndex_entries seg.entries S seg.segment.msgLog.bytes.length
        ((seg'.segment.msgLog.bytes.length - seg.segment.msgLog.bytes.length) % 2 ^ 32) with he | he
    · rw [he]
      exact hinv.entries.trans (List.sublist_append_left _ _)
    · rw [he, hmark, hinv.bytes, Nat.zero_add]
      exact hinv.entries.append (List.Sublist.refl _)

/-- **A run of appends keeps the invariant.** Induction on the batches. -/
theorem IndexedSegment.Inv.appendAll (hR : SizeAgrees R) {base : Int64} (hbase : 0 ≤ base.toInt) :
    ∀ {batches : List (Batch R)} {seg seg' : IndexedSegment} {chunks : List (List UInt8)}
      {placed placed' : List (Batch R)} {S L : Nat},
      seg.Inv base chunks placed S L →
      (∀ b ∈ batches, ∀ bytes, Encoder.encode b = some bytes → bytes.length < 2 ^ 31) →
      base.toInt + S + (batches.map Batch.recordsLen).sum < 2 ^ 63 →
      seg.appendAll batches = some (seg', placed') →
      ∃ chunks' L', seg'.Inv base (chunks ++ chunks') (placed ++ placed') (S + (batches.map Batch.recordsLen).sum) L'
  | [], _, _, _, _, _, _, L, hinv, _, _, h => by
    simp only [IndexedSegment.appendAll, Option.some.injEq, Prod.mk.injEq] at h
    obtain ⟨rfl, rfl⟩ := h
    exact ⟨[], L, by simpa using hinv⟩
  | batch :: rest, seg, seg', chunks, placed, placed', S, L, hinv, hsmall, hbound, h => by
    rcases hstep : seg.appendBatch batch with ⟨result, seg1, placed1⟩
    -- only a written batch continues the run
    rcases result with e | _ | _
    all_goals simp only [IndexedSegment.appendAll, hstep, reduceCtorEq] at h
    obtain ⟨⟨last, placedRest⟩, hrest, hpair⟩ := Option.map_eq_some_iff.mp h
    simp only [Prod.mk.injEq] at hpair
    obtain ⟨rfl, rfl⟩ := hpair
    simp only [List.map_cons, List.sum_cons] at hbound
    obtain ⟨c, hinv1⟩ := hinv.appendBatch hR hbase (hsmall batch List.mem_cons_self) (by omega) hstep
    obtain ⟨chunks', L', hinv'⟩ := IndexedSegment.Inv.appendAll hR hbase hinv1
      (fun b hb => hsmall b (List.mem_cons_of_mem batch hb)) (by omega) hrest
    refine ⟨c :: chunks', L', ?_⟩
    simpa [List.append_assoc, Nat.add_assoc] using hinv'

end Append

/-! ### Lookups after a run of appends -/

section Lookup

variable {R : Type}

/-- What a lookup of offset `o` should return in a segment from `lo` to `hi` whose log file
holds the encodings `chunks` of the batches `placed`: no error, a batch exactly when `o` lies
in the segment, and then the batch that holds `o`, at the position its encoding starts. -/
def FindsBatch (placed : List (Batch R)) (chunks : List (List UInt8)) (lo hi o : Int64)
    (r : Except ReadError (Option BatchPosition)) : Prop :=
  ∃ res, r = .ok res ∧ (res.isSome ↔ lo ≤ o ∧ o < hi) ∧
    ∀ p, res = some p → ∃ j, ∃ hj : j < placed.length,
      p.batch.baseOffset = placed[j].baseOffset ∧
      p.batch.header.lastOffsetDelta = placed[j].header.lastOffsetDelta ∧
      placed[j].baseOffset ≤ o ∧ o ≤ placed[j].getLastOffset ∧ p.pos = (chunks.take j).flatten.length

/-- The lookup over the spans of the placed batches, read back on the batches. -/
theorem findsBatch_of_spans {placed : List (Batch R)} {chunks : List (List UInt8)} {lo hi o : Int64}
    {r : Except ReadError (Option BatchPosition)} (hlayout : Layout lo.toInt (placed.map Batch.span) hi.toInt)
    (h : ∃ res, r = .ok res ∧ (res.isSome ↔ lo ≤ o ∧ o < hi) ∧
      ∀ p, res = some p → ∃ j, ∃ hj : j < (placed.map Batch.span).length,
        p.batch.baseOffset = (placed.map Batch.span)[j].1 ∧
        p.batch.header.lastOffsetDelta = (placed.map Batch.span)[j].2 ∧
        (placed.map Batch.span)[j].1.toInt ≤ o.toInt ∧
        o.toInt ≤ (placed.map Batch.span)[j].1.toInt + (placed.map Batch.span)[j].2.toInt ∧
        p.pos = (chunks.take j).flatten.length) :
    FindsBatch placed chunks lo hi o r := by
  obtain ⟨res, hr, hiff, hfound⟩ := h
  refine ⟨res, hr, hiff, fun p hp => ?_⟩
  obtain ⟨j, hj, hbase, hlod, hlo, hhi, hpos⟩ := hfound p hp
  have hj' : j < placed.length := by simpa using hj
  have hlast := hlayout.toInt_lastOffset (Int64.toInt_lt hi) (List.getElem_mem hj)
  simp only [List.getElem_map, Batch.span] at hbase hlod hlo hhi hlast
  refine ⟨j, hj', hbase, hlod, Int64.le_iff_toInt_le.mpr hlo, ?_, hpos⟩
  rw [Int64.le_iff_toInt_le, Batch.getLastOffset, hlast]
  exact hhi

variable [Crc32c] [Encoder R]

/-- The encodings a run of appends wrote are whole batches for the reader. -/
theorem IndexedSegment.Inv.wholeBatches (hR : SizeAgrees R) {base : Int64} {seg : IndexedSegment}
    {chunks : List (List UInt8)} {placed : List (Batch R)} {S L : Nat} (hinv : seg.Inv base chunks placed S L) :
    List.Forall₂ (fun c b => WholeBatch c b.1 b.2) chunks (placed.map Batch.span) := by
  -- the placed batches are as short as their encodings
  have hsmallPlaced : ∀ p ∈ placed, ∀ bytes, Encoder.encode p = some bytes → bytes.length < 2 ^ 31 := by
    intro p hp bytes henc
    obtain ⟨c, hc, hcp⟩ := exists_of_forall₂_of_mem hinv.encodes hp
    rw [henc, Option.some.injEq] at hcp
    rw [hcp]
    exact hinv.small c hc
  exact wholeBatches_of_encodes hR hinv.encodes hsmallPlaced

/-- After a run of appends, a lookup in the active segment, through the entries of its index, finds
the batch that holds the offset where it was written. -/
theorem IndexedSegment.Inv.findsBatch (hR : SizeAgrees R) {base : Int64} {seg : IndexedSegment}
    {chunks : List (List UInt8)} {placed : List (Batch R)} {S L : Nat} (hinv : seg.Inv base chunks placed S L)
    (hbase : 0 ≤ base.toInt) (o : Int64) :
    FindsBatch placed chunks base seg.segment.endOffset o (seg.toSegment.findOffsetPosition o) := by
  have hlayout : Layout base.toInt (placed.map Batch.span) seg.segment.endOffset.toInt := by
    rw [hinv.endOffset]
    exact hinv.layout
  have hsegBase : seg.segment.baseOffset = base := hinv.baseOffset
  have hindex : PointsAtBatches (Index.findOffset seg.toSegment.index) base.toInt chunks (placed.map Batch.span) := by
    intro d e he
    obtain ⟨hmem, hle⟩ := IndexEntries.findOffset_spec he
    exact .inr ⟨hle, hinv.entries.subset hmem⟩
  have := @Segment.findOffsetPosition_layout IndexEntries MutFileRecords _ _ seg.toSegment chunks
    (placed.map Batch.span) hinv.bytes (hinv.wholeBatches hR)
    (by simpa [IndexedSegment.toSegment, hsegBase] using hlayout)
    (by simpa [IndexedSegment.toSegment, hsegBase] using hbase)
    (by simpa [IndexedSegment.toSegment, hsegBase] using hindex) o
  exact findsBatch_of_spans hlayout (by simpa [IndexedSegment.toSegment, hsegBase] using this)

/-- The lookup of a batch's own base offset finds that batch, at the position its encoding starts. -/
theorem IndexedSegment.Inv.findOffsetPosition_baseOffset (hR : SizeAgrees R) {base : Int64}
    {seg : IndexedSegment} {chunks : List (List UInt8)} {placed : List (Batch R)} {S L : Nat}
    (hinv : seg.Inv base chunks placed S L) (hbase : 0 ≤ base.toInt) {k : Nat} (hk : k < placed.length) :
    ∃ p, seg.toSegment.findOffsetPosition placed[k].baseOffset = .ok (some p) ∧
      p.pos = (chunks.take k).flatten.length := by
  have hlayout : Layout base.toInt (placed.map Batch.span) seg.segment.endOffset.toInt := by
    rw [hinv.endOffset]
    exact hinv.layout
  have hkspan : k < (placed.map Batch.span).length := by simpa using hk
  obtain ⟨hlo, hlod, hhi⟩ := hlayout.mem _ (List.getElem_mem hkspan)
  simp only [List.getElem_map, Batch.span] at hlo hlod hhi
  obtain ⟨res, hres, hiff, hfound⟩ := hinv.findsBatch hR hbase placed[k].baseOffset
  -- the offset lies in the segment, so the lookup finds a batch
  obtain ⟨p, rfl⟩ : ∃ p, res = some p := Option.isSome_iff_exists.mp (hiff.mpr
    ⟨Int64.le_iff_toInt_le.mpr hlo, Int64.lt_iff_toInt_lt.mpr (by omega)⟩)
  obtain ⟨j, hj, -, -, hjlo, hjhi, hpos⟩ := hfound p rfl
  -- and only batch `k` holds its own base offset
  have hjspan : j < (placed.map Batch.span).length := by simpa using hj
  have hlast := hlayout.toInt_lastOffset (Int64.toInt_lt _) (List.getElem_mem hjspan)
  simp only [List.getElem_map, Batch.span] at hlast
  rw [Int64.le_iff_toInt_le] at hjlo hjhi
  rw [Batch.getLastOffset, hlast] at hjhi
  have hjk : j = k := hlayout.eq_of_holds_base hjspan hkspan (by simpa [Batch.span] using hjlo)
    (by simpa [Batch.span] using hjhi)
  subst hjk
  exact ⟨p, hres, hpos⟩

/-- **Finding an offset after appends.** Batches appended one after the other to a new segment
at a non-negative base, each encoded in fewer than `2 ^ 31` bytes, with no offset past
`2 ^ 63`, whatever the index's interval and size: in the active segment and in the read
segment it becomes, `find_offset_position` returns a batch exactly for the offsets of the
segment, and then the appended batch that holds the offset, at the position its encoding
was written to; `records_slice` starts there. -/
theorem IndexedSegment.findOffsetPosition_appended (hR : SizeAgrees R) {base : Int64}
    {segmentMaxBytes indexMaxIntervalBytes indexMaxBytes : Nat} {seg0 seg : IndexedSegment}
    {batches placed : List (Batch R)}
    (hcreate : IndexedSegment.create base segmentMaxBytes indexMaxIntervalBytes indexMaxBytes = .ok seg0)
    (happ : seg0.appendAll batches = some (seg, placed))
    (hsmall : ∀ b ∈ batches, ∀ bytes, Encoder.encode b = some bytes → bytes.length < 2 ^ 31)
    (hbase : 0 ≤ base.toInt) (hbound : base.toInt + (batches.map Batch.recordsLen).sum < 2 ^ 63) :
    ∃ chunks, List.Forall₂ (fun c p => Encoder.encode p = some c) chunks placed ∧
      seg.segment.msgLog.bytes = chunks.flatten ∧
      ∀ o, FindsBatch placed chunks base seg.segment.endOffset o (seg.toSegment.findOffsetPosition o) ∧
        FindsBatch placed chunks base seg.segment.endOffset o (seg.convertToSegment.findOffsetPosition o) ∧
        (∀ maxOffset slice, seg.toSegment.recordsSlice o maxOffset = .ok (some slice) →
          ∃ p, seg.toSegment.findOffsetPosition o = .ok (some p) ∧ slice.position = p.pos) ∧
        (∀ maxOffset slice, seg.convertToSegment.recordsSlice o maxOffset = .ok (some slice) →
          ∃ p, seg.convertToSegment.findOffsetPosition o = .ok (some p) ∧ slice.position = p.pos) := by
  obtain ⟨chunks, L, hinv⟩ := IndexedSegment.Inv.appendAll hR hbase (IndexedSegment.Inv.create hcreate) hsmall
    (by simpa using hbound) happ
  simp only [List.nil_append, Nat.zero_add] at hinv
  have hlayout : Layout base.toInt (placed.map Batch.span) seg.segment.endOffset.toInt := by
    rw [hinv.endOffset]
    exact hinv.layout
  have hsegBase : seg.segment.baseOffset = base := hinv.baseOffset
  refine ⟨chunks, hinv.encodes, hinv.bytes, fun o => ⟨hinv.findsBatch hR hbase o, ?_, ?_, ?_⟩⟩
  · -- the read segment, through the shrunk index file
    have hindex : PointsAtBatches (Index.findOffset seg.convertToSegment.index) base.toInt chunks
        (placed.map Batch.span) := by
      intro d e he
      obtain ⟨hmem, hle⟩ := LogIndex.findOffset_spec he
      rcases LogIndex.mem_openFromOffset hmem with hmem | rfl
      · exact .inr ⟨hle, hinv.entries.subset hmem⟩
      · exact .inl rfl
    have := @Segment.findOffsetPosition_layout LogIndex FileRecordsSlice _ _ seg.convertToSegment chunks
      (placed.map Batch.span) hinv.bytes (hinv.wholeBatches hR)
      (by simpa [IndexedSegment.convertToSegment, hsegBase] using hlayout)
      (by simpa [IndexedSegment.convertToSegment, hsegBase] using hbase)
      (by simpa [IndexedSegment.convertToSegment, hsegBase] using hindex) o
    exact findsBatch_of_spans hlayout (by simpa [IndexedSegment.convertToSegment, hsegBase] using this)
  · intro maxOffset slice h
    exact Segment.recordsSlice_position MutFileRecords.slicesAtStart h
  · intro maxOffset slice h
    exact Segment.recordsSlice_position FileRecordsSlice.slicesAtStart h

end Lookup

/-- One batch of three raw bytes in a segment that indexes every batch: every lookup in
either view finds it where it was written. -/
theorem oneBatch_found :
    ∃ seg0 seg placed, IndexedSegment.create 0 1024 0 1000 = .ok seg0 ∧
      seg0.appendAll oneBatchSet.batches = some (seg, placed) ∧
      ∃ chunks, List.Forall₂ (fun c p => Encoder.encode p = some c) chunks placed ∧
        seg.segment.msgLog.bytes = chunks.flatten ∧
        ∀ o, FindsBatch placed chunks 0 seg.segment.endOffset o (seg.toSegment.findOffsetPosition o) ∧
          FindsBatch placed chunks 0 seg.segment.endOffset o (seg.convertToSegment.findOffsetPosition o) ∧
          (∀ maxOffset slice, seg.toSegment.recordsSlice o maxOffset = .ok (some slice) →
            ∃ p, seg.toSegment.findOffsetPosition o = .ok (some p) ∧ slice.position = p.pos) ∧
          (∀ maxOffset slice, seg.convertToSegment.recordsSlice o maxOffset = .ok (some slice) →
            ∃ p, seg.convertToSegment.findOffsetPosition o = .ok (some p) ∧ slice.position = p.pos) := by
  have hcreate : IndexedSegment.create 0 1024 0 1000 = .ok ⟨MutableSegment.create 0 1024, ⟨0, 125, 0, []⟩⟩ := rfl
  have hsome : ((⟨MutableSegment.create 0 1024, ⟨0, 125, 0, []⟩⟩ : IndexedSegment).appendAll
      oneBatchSet.batches).isSome = true := by
    decide +kernel
  obtain ⟨⟨seg, placed⟩, happ⟩ := Option.isSome_iff_exists.mp hsome
  have hsmall := oneBatchSet_encodes_small
  exact ⟨_, seg, placed, hcreate, happ,
    IndexedSegment.findOffsetPosition_appended RawRecords.sizeAgrees hcreate happ hsmall (by decide) (by decide)⟩

/-- Inside the segment, the lookup is the header scan from the position the index gives. -/
theorem Segment.findOffsetPosition_inside {I L : Type} [Index I] [FileRecords L] {seg : Segment I L} {o : Int64}
    (hlo : ¬ o < seg.baseOffset) (hhi : ¬ seg.endOffset ≤ o) {pos : Nat}
    (hpos : ((Index.findOffset seg.index (o - seg.baseOffset).toUInt64.toUInt32.toNat).map Prod.snd).getD 0 = pos) :
    seg.findOffsetPosition o =
      scanHeaders (FileRecords.bytes seg.msgLog) o ((FileRecords.bytes seg.msgLog).length + 1) pos := by
  unfold Segment.findOffsetPosition
  rw [if_neg hlo, if_neg hhi]
  dsimp only
  cases h : Index.findOffset seg.index (o - seg.baseOffset).toUInt64.toUInt32.toNat <;> simp_all

/-- The scan fails at a batch whose `batch_len` is negative as an `i32`. -/
theorem scanHeaders_negLen {rest : List UInt8} {base : Int64} {len : Int32} {h : BatchHeader} (hneg : len.toInt < 0)
    (offset : Int64) (fuel : Nat) :
    ∃ e, scanHeaders (fileHead base len h ++ rest) offset (fuel + 1) 0 = .error e := by
  obtain ⟨e, p, hread⟩ := @readFrom_negLen [] rest base len h hneg
  rw [List.nil_append, List.length_nil] at hread
  rw [scanHeaders, hread]
  exact ⟨_, rfl⟩

/-- A segment whose index has no entry and whose first batch has a negative `batch_len`
cannot be read: every lookup inside it fails, in the active segment and in the read segment. -/
theorem IndexedSegment.findOffsetPosition_negLen {seg : IndexedSegment} {base : Int64} {len : Int32}
    {h : BatchHeader} {rest : List UInt8} (hfile : seg.segment.msgLog.bytes = fileHead base len h ++ rest)
    (hneg : len.toInt < 0) (hentries : seg.entries.entries = []) {o : Int64} (hlo : seg.segment.baseOffset ≤ o)
    (hhi : o < seg.segment.endOffset) :
    (∃ e, seg.toSegment.findOffsetPosition o = .error e) ∧
      (∃ e, seg.convertToSegment.findOffsetPosition o = .error e) := by
  have hlo' : ¬ o < seg.segment.baseOffset := Int64.not_lt.mpr hlo
  have hhi' : ¬ seg.segment.endOffset ≤ o := Int64.not_le.mpr hhi
  constructor
  · -- no entry: the scan starts at the file's head
    have hpos : ((Index.findOffset seg.toSegment.index
        (o - seg.toSegment.baseOffset).toUInt64.toUInt32.toNat).map Prod.snd).getD 0 = 0 := by
      cases he : Index.findOffset seg.toSegment.index (o - seg.toSegment.baseOffset).toUInt64.toUInt32.toNat with
      | none => rfl
      | some e =>
        have hmem := (@IndexEntries.findOffset_spec seg.entries _ _ he).1
        simp [hentries] at hmem
    rw [@Segment.findOffsetPosition_inside _ _ _ _ seg.toSegment o hlo' hhi' 0 hpos]
    show ∃ e, scanHeaders seg.segment.msgLog.bytes o (seg.segment.msgLog.bytes.length + 1) 0 = .error e
    rw [hfile]
    exact scanHeaders_negLen hneg o _
  · -- the shrunk index is the zero entry, which points at the file's head too
    have hpos : ((Index.findOffset seg.convertToSegment.index
        (o - seg.convertToSegment.baseOffset).toUInt64.toUInt32.toNat).map Prod.snd).getD 0 = 0 := by
      cases he : Index.findOffset seg.convertToSegment.index
          (o - seg.convertToSegment.baseOffset).toUInt64.toUInt32.toNat with
      | none => rfl
      | some e =>
        have hmem := (@LogIndex.findOffset_spec (LogIndex.openFromOffset seg.entries.entries) _ _ he).1
        rcases LogIndex.mem_openFromOffset hmem with hmem | rfl
        · simp [hentries] at hmem
        · rfl
    rw [@Segment.findOffsetPosition_inside _ _ _ _ seg.convertToSegment o hlo' hhi' 0 hpos]
    show ∃ e, scanHeaders seg.segment.msgLog.bytes o (seg.segment.msgLog.bytes.length + 1) 0 = .error e
    rw [hfile]
    exact scanHeaders_negLen hneg o _

/-- **A lookup fails on a batch of `2 ^ 31` bytes.** Appended to a new segment of
`2 ^ 32 - 1` bytes, the batch is written and the segment ends at `1`, but
`find_offset_position 0` reads the batch's `batch_len` as negative and fails, in the active
segment and in the read segment. -/
theorem hugeBatch_lookup_fails :
    ∃ seg0 seg placed, IndexedSegment.create 0 (2 ^ 32 - 1) 4096 10485760 = .ok seg0 ∧
      seg0.appendAll [hugeBatch] = some (seg, placed) ∧ seg.segment.endOffset = 1 ∧
      (∃ e, seg.toSegment.findOffsetPosition 0 = .error e) ∧
      (∃ e, seg.convertToSegment.findOffsetPosition 0 = .error e) := by
  obtain ⟨hdr, content, hcontent, happend⟩ := hugeBatch_appended
  let seg0 : IndexedSegment := ⟨MutableSegment.create 0 (2 ^ 32 - 1), ⟨4096, 10485760 / 8, 0, []⟩⟩
  have hstep := @IndexedSegment.appendBatch_of_ok RawRecords _ _ seg0 _ _ _ happend
  have happ : seg0.appendAll [hugeBatch] =
      some ((seg0.appendBatch hugeBatch).2.1, [{ hugeBatch with baseOffset := 0 }]) := by
    rw [IndexedSegment.appendAll, hstep]
    rfl
  -- the batch's size is accumulated below the interval: no entry is written
  have hentries : (seg0.appendBatch hugeBatch).2.1.entries.entries = [] := by
    rw [hstep]
    have hinterval : seg0.entries.accumulatedBatchLen < seg0.entries.maxIndexInterval := by decide
    simp only [IndexEntries.writeIndex, if_pos hinterval]
    rfl
  have hneg : (Int32.ofNat (batchHeaderSize + content.length)).toInt < 0 := by
    rw [hcontent]
    decide
  have hfile : (seg0.appendBatch hugeBatch).2.1.segment.msgLog.bytes =
      fileHead 0 (Int32.ofNat (batchHeaderSize + content.length)) hdr ++ content := by
    rw [hstep]
  have hbase : (seg0.appendBatch hugeBatch).2.1.segment.baseOffset = 0 := by
    rw [hstep]
    rfl
  have hend : (seg0.appendBatch hugeBatch).2.1.segment.endOffset = 1 := by
    rw [hstep]
  -- from here on the written segment is only seen through these facts
  generalize (seg0.appendBatch hugeBatch).2.1 = seg at happ hentries hfile hbase hend
  have hlo : seg.segment.baseOffset ≤ 0 := by
    rw [hbase]
    decide
  have hhi : 0 < seg.segment.endOffset := by
    rw [hend]
    decide
  exact ⟨seg0, seg, _, rfl, happ, hend, IndexedSegment.findOffsetPosition_negLen hfile hneg hentries hlo hhi⟩

end Fluvio.Storage
