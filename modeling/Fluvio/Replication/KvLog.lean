import Fluvio.Kv.Storage
import Mathlib.Data.List.Induction

/-!
The log that a key-value storage on a replica reads and writes
(`fluvio-spu/src/replication/leader/kv.rs`: `LeaderReplicaLog`, `ReplicaRevStream`).

`read_from_end` returns a stream that remembers the offset of the last record it yielded,
starting from the high watermark. With nothing buffered it reads the batch holding the offset
before that one (`read_batch`: `read_records` from that offset, the first batch of the slice)
and pops its records, newest first. A read that returns no record ends the stream; a failed
read yields its error, and the next poll polls the spent future of `read_batch` again, which
panics.

The replica is seen as its batches, by offset, from the log start offset on. How
`read_records` finds the batch holding an offset, through the segments, the index and the
batch headers of the files, is `Segment.findOffsetPosition_layout`.

* `ReplicaRevStream.collect_new` — polled to its end, the stream yields every record below the
  high watermark once, newest first, and then ends: cleanly when the log starts at offset 0,
  with `OffsetEvicted` and a panic otherwise;
* `ReplicaLog.offsets_committed` — those records have the offsets from the log start to the
  high watermark, each once.
-/

namespace Fluvio.Replication

open Fluvio.Kv
open Fluvio.Protocol (Encoder Decoder RoundTrips FixedWidth u8Width)

variable {α : Type}

/-- A batch of the replica's log, by its base offset and the values of its records. -/
structure StoredBatch (α : Type) where
  baseOffset : Int
  records : List α
deriving DecidableEq, Repr

/-- `Batch::get_last_offset`. -/
def StoredBatch.lastOffset (b : StoredBatch α) : Int := b.baseOffset + b.records.length - 1

/-- `RecordItem`: the value of a record and its offset. -/
structure RecordItem (α : Type) where
  record : α
  offset : Int
deriving DecidableEq, Repr

/-- Records from offset `o` on, each with its offset. -/
def itemsFrom (o : Int) : List α → List (RecordItem α)
  | [] => []
  | r :: rs => ⟨r, o⟩ :: itemsFrom (o + 1) rs

/-- `FileRecordIterator` over one batch: each record at the base offset plus its delta. -/
def StoredBatch.items (b : StoredBatch α) : List (RecordItem α) := itemsFrom b.baseOffset b.records

/-- Batches that follow each other from offset `o` on, each starting where the one before
ends. -/
def Contiguous : Int → List (StoredBatch α) → Prop
  | _, [] => True
  | o, b :: bs => b.baseOffset = o ∧ Contiguous (o + b.records.length) bs

/-- The offset after the batches from `o` on. -/
def endOffset (o : Int) (bs : List (StoredBatch α)) : Int := o + (bs.map fun b => b.records.length).sum

/-- What `ReplicaRevStream` reads of a `LeaderReplicaState`: the log start offset, the batches
from there on and the high watermark. The write path stores no batch without records and
places each batch at the end of the log; the high watermark moves to log end offsets that
followers report, or to the leader's own, each at the end of a batch. -/
structure ReplicaLog (α : Type) where
  logStart : Int
  batches : List (StoredBatch α)
  hw : Int
  logStart_nonneg : 0 ≤ logStart
  nonempty : ∀ b ∈ batches, b.records ≠ []
  contiguous : Contiguous logStart batches
  hw_batchEnd : ∃ n, hw = endOffset logStart (batches.take n)

/-- `get_leo`. -/
def ReplicaLog.leo (log : ReplicaLog α) : Int := endOffset log.logStart log.batches

/-- The records of the log with their offsets, oldest first. -/
def ReplicaLog.items (log : ReplicaLog α) : List (RecordItem α) := log.batches.flatMap StoredBatch.items

/-- `ErrorCode`, as `read_records` returns it. -/
inductive ErrorCode
  | offsetEvicted (offset nextAvailable : Int)
  | other (msg : String)
deriving DecidableEq, Repr

/-- `FileReplica::read_records` with no bound on offsets or bytes (`Isolation::ReadUncommitted`
and `u32::MAX`): the batches from the one holding `startOffset` on, or nothing at the log
end. The source asks the active segment first and the previous ones for an offset below its
base; an offset below the log start is in none of them. -/
def ReplicaLog.readRecords (log : ReplicaLog α) (startOffset : Int) :
    Except ErrorCode (Option (List (StoredBatch α))) :=
  let leo := log.leo
  if startOffset < log.logStart then .error (.offsetEvicted startOffset log.logStart)
  else if startOffset = leo then .ok none
  else if leo < startOffset then .error (.other s!"start offset: {startOffset} is greater than leo: {leo}")
  else .ok (some (log.batches.dropWhile fun b => b.lastOffset < startOffset))

/-- `ReplicaRevStream::read_batch`: the records of the batch holding the offset before
`lastSeenOffset`, oldest first; none below offset 0 or at the log end. Offsets are `i64`, and
`checked_sub` fails only at `i64::MIN`, below every offset. -/
def readBatch (log : ReplicaLog α) (lastSeenOffset : Int) : Except ErrorCode (List (RecordItem α)) :=
  let next := lastSeenOffset - 1
  if next < 0 then .ok []
  else
    match log.readRecords next with
    | .error e => .error e
    | .ok none => .ok []
    | .ok (some slice) => .ok ((slice.take 1).flatMap StoredBatch.items)

/-- The future of `read_batch`, by the offset it reads before; `done` once it has returned. -/
structure ReadBatchFuture where
  lastSeenOffset : Int
  done : Bool
deriving DecidableEq, Repr

/-- `InnerFutureState`. -/
inductive InnerFutureState (α : Type)
  | none
  | resolved (records : List (RecordItem α))
  | pending (fut : ReadBatchFuture)

/-- `ReplicaRevStream`, without the replica it reads. -/
structure ReplicaRevStream (α : Type) where
  lastSeenOffset : Int
  innerIterFut : InnerFutureState α

/-- `ReplicaRevStream::new`. -/
def ReplicaRevStream.new (log : ReplicaLog α) : ReplicaRevStream α := ⟨log.hw, .none⟩

/-- `Poll`. -/
inductive Poll (β : Type)
  | ready (v : β)
  | pending

/-- An item of the stream. -/
abbrev StreamItem (α : Type) := Option (Except ErrorCode α)

/-- The end of `poll_next`, after `Vec::pop`: the popped record is yielded and its offset
remembered; with none, the stream drops the buffer and asks to be polled again. -/
def ReplicaRevStream.popRecord (lastSeenOffset : Int) (records : List (RecordItem α)) :
    Poll (StreamItem α) × ReplicaRevStream α :=
  match records.getLast? with
  | some record => (.ready (some (.ok record.record)), ⟨record.offset, .resolved records.dropLast⟩)
  | none => (.pending, ⟨lastSeenOffset, .none⟩)

/-- `poll_next`; `none` when it panics. The future of `read_batch` is ready when it is polled. -/
def ReplicaRevStream.pollNext (log : ReplicaLog α) (s : ReplicaRevStream α) :
    Option (Poll (StreamItem α) × ReplicaRevStream α) :=
  match s.innerIterFut with
  | .resolved records => some (popRecord s.lastSeenOffset records)
  | .pending fut =>
    -- an `async fn` future polled again after it returned panics
    if fut.done then none
    else
      let spent := { s with innerIterFut := .pending { fut with done := true } }
      match readBatch log fut.lastSeenOffset with
      | .ok [] => some (.ready none, spent)
      | .ok records => some (popRecord s.lastSeenOffset records)
      | .error e => some (.ready (some (.error e)), spent)
  | .none => some (.pending, { s with innerIterFut := .pending ⟨s.lastSeenOffset, false⟩ })

/-- How polling a stream to its end stopped. -/
inductive Stop
  | finished
  | panicked
  | outOfFuel
deriving DecidableEq, Repr

/-- The items a stream yielded until it stopped. -/
structure Collected (α : Type) where
  items : List (Except ErrorCode α)
  stop : Stop

/-- Items yielded before the rest. -/
def Collected.prepend (items : List (Except ErrorCode α)) (c : Collected α) : Collected α :=
  { c with items := items ++ c.items }

/-- `StreamExt::collect`: poll until the stream returns `None`, for at most `fuel` polls; the
stream wakes itself whenever it returns `Pending`. -/
def ReplicaRevStream.collect (log : ReplicaLog α) : Nat → ReplicaRevStream α → Collected α
  | 0, _ => ⟨[], .outOfFuel⟩
  | fuel + 1, s =>
    match s.pollNext log with
    | none => ⟨[], .panicked⟩
    | some (.ready none, _) => ⟨[], .finished⟩
    | some (.ready (some item), s') => (collect log fuel s').prepend [item]
    | some (.pending, s') => collect log fuel s'

/-- What the stream yields after the records: nothing when the log starts at offset 0;
otherwise the read below the log start fails, and the next poll panics. -/
def ReplicaLog.ending (log : ReplicaLog α) : Collected α :=
  if log.logStart = 0 then ⟨[], .finished⟩
  else ⟨[.error (.offsetEvicted (log.logStart - 1) log.logStart)], .panicked⟩

/-! ### Offsets of a contiguous log -/

section Offsets

@[simp] theorem endOffset_nil (o : Int) : endOffset o ([] : List (StoredBatch α)) = o := by
  simp only [endOffset, List.map_nil, List.sum_nil, Nat.cast_zero, add_zero]

theorem endOffset_cons (o : Int) (b : StoredBatch α) (bs : List (StoredBatch α)) :
    endOffset o (b :: bs) = endOffset (o + b.records.length) bs := by
  simp only [endOffset, List.map_cons, List.sum_cons, Nat.cast_add]
  omega

theorem endOffset_append (o : Int) (xs ys : List (StoredBatch α)) :
    endOffset o (xs ++ ys) = endOffset (endOffset o xs) ys := by
  simp only [endOffset, List.map_append, List.sum_append, Nat.cast_add]
  omega

theorem le_endOffset (o : Int) (bs : List (StoredBatch α)) : o ≤ endOffset o bs := by
  have hsum : (0 : Int) ≤ ((bs.map fun b => b.records.length).sum : Nat) := Int.natCast_nonneg _
  unfold endOffset
  omega

theorem contiguous_append {o : Int} {xs ys : List (StoredBatch α)} :
    Contiguous o (xs ++ ys) ↔ Contiguous o xs ∧ Contiguous (endOffset o xs) ys := by
  induction xs generalizing o with
  | nil => simp [Contiguous]
  | cons b bs ih => simp only [List.cons_append, Contiguous, ih, endOffset_cons, and_assoc]

@[simp] theorem length_itemsFrom (o : Int) (rs : List α) : (itemsFrom o rs).length = rs.length := by
  induction rs generalizing o with
  | nil => rfl
  | cons r rs ih => simp [itemsFrom, ih]

/-- The records of a batch sit at its base offset plus their places. -/
theorem itemsFrom_offsets (o : Int) (rs : List α) :
    (itemsFrom o rs).map RecordItem.offset = (List.range rs.length).map fun i : Nat => o + (i : Int) := by
  induction rs generalizing o with
  | nil => rfl
  | cons r rs ih =>
    rw [itemsFrom, List.map_cons, ih, List.length_cons, List.range_succ_eq_map, List.map_cons, List.map_map]
    congr 1
    · simp
    · refine List.map_congr_left fun i _ => ?_
      simp only [Function.comp_apply]
      omega

@[simp] theorem itemsFrom_records (o : Int) (rs : List α) : (itemsFrom o rs).map RecordItem.record = rs := by
  induction rs generalizing o with
  | nil => rfl
  | cons r rs ih => simp [itemsFrom, ih]

/-- The oldest record of a batch is at its base offset. -/
theorem StoredBatch.head?_items {b : StoredBatch α} (h : b.records ≠ []) :
    b.items.head?.map RecordItem.offset = some b.baseOffset := by
  obtain ⟨r, rs, hrs⟩ := List.exists_cons_of_ne_nil h
  simp [StoredBatch.items, hrs, itemsFrom]

/-- The records of a contiguous log have the offsets from its start to its end, each once. -/
theorem Contiguous.offsets : ∀ {o : Int} {bs : List (StoredBatch α)}, Contiguous o bs →
    (bs.flatMap StoredBatch.items).map RecordItem.offset =
      (List.range (bs.map fun b => b.records.length).sum).map fun i : Nat => o + (i : Int)
  | _, [], _ => rfl
  | o, b :: bs, h => by
    obtain ⟨hb, hrest⟩ := h
    rw [List.flatMap_cons, List.map_append, StoredBatch.items, itemsFrom_offsets, hrest.offsets, hb,
      List.map_cons, List.sum_cons, List.range_add, List.map_append, List.map_map]
    congr 1
    refine List.map_congr_left fun i _ => ?_
    simp only [Function.comp_apply, Nat.cast_add]
    omega

/-- Every record of a contiguous log lies between its start and its end. -/
theorem Contiguous.offset_mem {o : Int} {bs : List (StoredBatch α)} (h : Contiguous o bs)
    {r : RecordItem α} (hr : r ∈ bs.flatMap StoredBatch.items) : o ≤ r.offset ∧ r.offset < endOffset o bs := by
  have hmem : r.offset ∈ (bs.flatMap StoredBatch.items).map RecordItem.offset := List.mem_map_of_mem hr
  rw [h.offsets, List.mem_map] at hmem
  obtain ⟨i, hi, hoff⟩ := hmem
  rw [List.mem_range] at hi
  simp only [endOffset]
  omega

/-- Every batch of a contiguous log ends at or before the log's end. -/
theorem Contiguous.batch_end_le : ∀ {o : Int} {bs : List (StoredBatch α)}, Contiguous o bs →
    ∀ b ∈ bs, b.baseOffset + b.records.length ≤ endOffset o bs
  | _, [], _, _, hb => by simp at hb
  | o, c :: cs, h, b, hb => by
    obtain ⟨hc, hrest⟩ := h
    rw [endOffset_cons]
    rcases List.mem_cons.mp hb with rfl | hb
    · rw [hc]
      exact le_endOffset _ _
    · exact hrest.batch_end_le b hb

end Offsets

/-! ### Reading a batch -/

/-- A batch of the log starts where the batches before it end. -/
theorem ReplicaLog.baseOffset_eq (log : ReplicaLog α) {pre post : List (StoredBatch α)} {b : StoredBatch α}
    (h : log.batches = pre ++ b :: post) : b.baseOffset = endOffset log.logStart pre := by
  have hc := log.contiguous
  rw [h, contiguous_append] at hc
  exact hc.2.1

/-- The read after the end of a batch returns the records of that batch. -/
theorem ReplicaLog.readBatch_batchEnd (log : ReplicaLog α) {pre post : List (StoredBatch α)} {b : StoredBatch α}
    (h : log.batches = pre ++ b :: post) :
    readBatch log (endOffset log.logStart (pre ++ [b])) = .ok b.items := by
  have hpre : Contiguous log.logStart pre := by
    have hc := log.contiguous
    rw [h, contiguous_append] at hc
    exact hc.1
  have hbase := log.baseOffset_eq h
  have hlen : 0 < b.records.length := List.length_pos_iff.mpr (log.nonempty b (by simp [h]))
  have hlast : b.lastOffset = b.baseOffset + b.records.length - 1 := rfl
  have hnonneg := log.logStart_nonneg
  have hend : endOffset log.logStart (pre ++ [b]) - 1 = b.lastOffset := by
    rw [endOffset_append, endOffset_cons, endOffset_nil, ← hbase, StoredBatch.lastOffset]
  have hstart : log.logStart ≤ b.baseOffset := hbase ▸ le_endOffset _ _
  have hleo : b.lastOffset < log.leo := by
    have hafter := le_endOffset (endOffset log.logStart (pre ++ [b])) post
    rw [← endOffset_append, List.append_assoc, List.singleton_append, ← h] at hafter
    rw [ReplicaLog.leo]
    omega
  -- the batches before `b` end below its last offset
  have hdrop : (log.batches.dropWhile fun c => decide (c.lastOffset < b.lastOffset)) = b :: post := by
    rw [h, List.dropWhile_append_of_pos, List.dropWhile_cons_of_neg]
    · simp
    · intro c hc
      have hcend := hpre.batch_end_le c hc
      apply decide_eq_true
      rw [StoredBatch.lastOffset]
      omega
  unfold readBatch ReplicaLog.readRecords
  simp only [hend]
  rw [if_neg (by omega), if_neg (by omega), if_neg (by omega), if_neg (by omega), hdrop]
  simp

/-- The read at the log start: nothing when the log starts at offset 0, and otherwise
`OffsetEvicted` for the offset before it. -/
theorem ReplicaLog.readBatch_logStart (log : ReplicaLog α) :
    readBatch log log.logStart =
      if log.logStart = 0 then .ok [] else .error (.offsetEvicted (log.logStart - 1) log.logStart) := by
  have hnonneg := log.logStart_nonneg
  unfold readBatch ReplicaLog.readRecords
  by_cases h0 : log.logStart = 0
  · rw [if_pos h0, if_pos (by omega)]
  · rw [if_neg h0, if_neg (by omega)]
    simp only
    rw [if_pos (by omega)]

/-! ### Polls -/

section Poll

variable (log : ReplicaLog α) (o : Int)

@[simp] theorem Collected.prepend_nil (c : Collected α) : c.prepend [] = c := rfl

@[simp] theorem Collected.prepend_prepend (xs ys : List (Except ErrorCode α)) (c : Collected α) :
    (c.prepend ys).prepend xs = c.prepend (xs ++ ys) := by
  simp [Collected.prepend]

theorem pollNext_none : (⟨o, .none⟩ : ReplicaRevStream α).pollNext log = some (.pending, ⟨o, .pending ⟨o, false⟩⟩) :=
  rfl

theorem pollNext_resolved_nil :
    (⟨o, .resolved []⟩ : ReplicaRevStream α).pollNext log = some (.pending, ⟨o, .none⟩) :=
  rfl

theorem pollNext_resolved_snoc (rs : List (RecordItem α)) (x : RecordItem α) :
    (⟨o, .resolved (rs ++ [x])⟩ : ReplicaRevStream α).pollNext log =
      some (.ready (some (.ok x.record)), ⟨x.offset, .resolved rs⟩) := by
  simp [ReplicaRevStream.pollNext, ReplicaRevStream.popRecord]

theorem pollNext_spent (o' : Int) : (⟨o, .pending ⟨o', true⟩⟩ : ReplicaRevStream α).pollNext log = none :=
  rfl

/-- A read that returns records is polled as the buffer of those records. -/
theorem pollNext_read {o' : Int} {rs : List (RecordItem α)} (h : readBatch log o' = .ok rs) (hrs : rs ≠ []) :
    (⟨o, .pending ⟨o', false⟩⟩ : ReplicaRevStream α).pollNext log =
      (⟨o, .resolved rs⟩ : ReplicaRevStream α).pollNext log := by
  obtain ⟨r, rs', rfl⟩ := List.exists_cons_of_ne_nil hrs
  simp [ReplicaRevStream.pollNext, h]

theorem pollNext_read_empty {o' : Int} (h : readBatch log o' = .ok []) :
    (⟨o, .pending ⟨o', false⟩⟩ : ReplicaRevStream α).pollNext log = some (.ready none, ⟨o, .pending ⟨o', true⟩⟩) := by
  simp [ReplicaRevStream.pollNext, h]

theorem pollNext_read_error {o' : Int} {e : ErrorCode} (h : readBatch log o' = .error e) :
    (⟨o, .pending ⟨o', false⟩⟩ : ReplicaRevStream α).pollNext log =
      some (.ready (some (.error e)), ⟨o, .pending ⟨o', true⟩⟩) := by
  simp [ReplicaRevStream.pollNext, h]

variable {log} {s s' : ReplicaRevStream α} (fuel : Nat)

theorem collect_ready {item : Except ErrorCode α} (h : s.pollNext log = some (.ready (some item), s')) :
    ReplicaRevStream.collect log (fuel + 1) s = (ReplicaRevStream.collect log fuel s').prepend [item] := by
  simp [ReplicaRevStream.collect, h]

theorem collect_pending (h : s.pollNext log = some (.pending, s')) :
    ReplicaRevStream.collect log (fuel + 1) s = ReplicaRevStream.collect log fuel s' := by
  simp [ReplicaRevStream.collect, h]

theorem collect_finished (h : s.pollNext log = some (.ready none, s')) :
    ReplicaRevStream.collect log (fuel + 1) s = ⟨[], .finished⟩ := by
  simp [ReplicaRevStream.collect, h]

theorem collect_panicked (h : s.pollNext log = none) :
    ReplicaRevStream.collect log (fuel + 1) s = ⟨[], .panicked⟩ := by
  simp [ReplicaRevStream.collect, h]

/-- Two states that poll alike are collected alike. -/
theorem collect_congr {t : ReplicaRevStream α} (h : s.pollNext log = t.pollNext log) :
    ReplicaRevStream.collect log (fuel + 1) s = ReplicaRevStream.collect log (fuel + 1) t := by
  simp only [ReplicaRevStream.collect, h]

end Poll

/-! ### Runs of the stream -/

section Run

open ReplicaRevStream

variable (log : ReplicaLog α)

/-- Popping a buffer to its end yields its records newest first, and leaves the stream at the
offset of the oldest. -/
theorem collect_resolved (fuel : Nat) (o : Int) (rs : List (RecordItem α)) :
    collect log (fuel + rs.length + 1) ⟨o, .resolved rs⟩ =
      (collect log fuel ⟨(rs.head?.map RecordItem.offset).getD o, .none⟩).prepend
        (rs.reverse.map fun r => .ok r.record) := by
  induction rs using List.reverseRecOn generalizing o with
  | nil => exact collect_pending fuel (pollNext_resolved_nil log o)
  | append_singleton rs x ih =>
    have hfuel : fuel + (rs ++ [x]).length + 1 = fuel + rs.length + 1 + 1 := by
      simp only [List.length_append, List.length_singleton]
      omega
    rw [hfuel, collect_ready _ (pollNext_resolved_snoc log o rs x), ih, Collected.prepend_prepend]
    cases rs with
    | nil => rfl
    | cons r rs => simp

/-- From the end of a batch, the stream yields the batch's records, newest first, and moves to
its base offset. -/
theorem collect_batch {pre post : List (StoredBatch α)} {b : StoredBatch α}
    (h : log.batches = pre ++ b :: post) (fuel : Nat) :
    collect log (fuel + (b.records.length + 2)) ⟨endOffset log.logStart (pre ++ [b]), .none⟩ =
      (collect log fuel ⟨b.baseOffset, .none⟩).prepend (b.items.reverse.map fun r => .ok r.record) := by
  have hb : b.records ≠ [] := log.nonempty b (by simp [h])
  have hitems : b.items ≠ [] := by
    rw [← List.length_pos_iff, StoredBatch.items, length_itemsFrom]
    exact List.length_pos_iff.mpr hb
  have hfuel : fuel + (b.records.length + 2) = fuel + b.items.length + 1 + 1 := by
    simp only [StoredBatch.items, length_itemsFrom]
    omega
  rw [hfuel, collect_pending _ (pollNext_none log _),
    collect_congr _ (pollNext_read log _ (log.readBatch_batchEnd h) hitems), collect_resolved,
    StoredBatch.head?_items hb, Option.getD_some]

/-- From the end of a prefix of the log, the stream yields the prefix's records, newest first,
and moves to the log start. -/
theorem collect_batches (fuel : Nat) {pre : List (StoredBatch α)} (hpre : pre <+: log.batches) :
    collect log (fuel + (pre.map fun b => b.records.length + 2).sum) ⟨endOffset log.logStart pre, .none⟩ =
      (collect log fuel ⟨log.logStart, .none⟩).prepend
        ((pre.flatMap StoredBatch.items).reverse.map fun r => .ok r.record) := by
  induction pre using List.reverseRecOn with
  | nil => simp
  | append_singleton pre b ih =>
    obtain ⟨post, hpost⟩ := hpre
    have h : log.batches = pre ++ b :: post := by simp [← hpost]
    have hfuel : fuel + ((pre ++ [b]).map fun b => b.records.length + 2).sum =
        fuel + (pre.map fun b => b.records.length + 2).sum + (b.records.length + 2) := by
      simp only [List.map_append, List.sum_append, List.map_cons, List.map_nil, List.sum_cons, List.sum_nil]
      omega
    rw [hfuel, collect_batch log h, log.baseOffset_eq h, ih ⟨b :: post, h.symm⟩, Collected.prepend_prepend]
    simp

/-- From the log start, the stream ends as `ending` says, within three polls. -/
theorem collect_logStart (fuel : Nat) : collect log (fuel + 3) ⟨log.logStart, .none⟩ = log.ending := by
  have hread := log.readBatch_logStart
  rw [collect_pending _ (pollNext_none log _), ReplicaLog.ending]
  by_cases h0 : log.logStart = 0
  · rw [if_pos h0] at hread ⊢
    exact collect_finished _ (pollNext_read_empty log _ hread)
  · rw [if_neg h0] at hread ⊢
    rw [collect_ready _ (pollNext_read_error log _ hread), collect_panicked _ (pollNext_spent log _ _)]
    rfl

end Run

/-! ### The records below the high watermark -/

/-- The records below the high watermark are those of the batches up to it. -/
theorem ReplicaLog.committed_eq (log : ReplicaLog α) {n : Nat} (hn : log.hw = endOffset log.logStart (log.batches.take n)) :
    log.items.filter (fun r => r.offset < log.hw) = (log.batches.take n).flatMap StoredBatch.items := by
  have hsplit := List.take_append_drop n log.batches
  have hc := log.contiguous
  rw [← hsplit, contiguous_append] at hc
  obtain ⟨htake, hdrop⟩ := hc
  have hbelow : ∀ r ∈ (log.batches.take n).flatMap StoredBatch.items, decide (r.offset < log.hw) = true := by
    intro r hr
    have := htake.offset_mem hr
    simp only [decide_eq_true_eq]
    omega
  have habove : ∀ r ∈ (log.batches.drop n).flatMap StoredBatch.items, ¬ decide (r.offset < log.hw) = true := by
    intro r hr
    have := hdrop.offset_mem hr
    simp only [decide_eq_true_eq, not_lt]
    omega
  rw [ReplicaLog.items]
  conv_lhs => rw [← hsplit]
  rw [List.flatMap_append, List.filter_append, List.filter_eq_self.mpr hbelow, List.filter_eq_nil_iff.mpr habove,
    List.append_nil]

/-- The records below the high watermark have the offsets from the log start to the high
watermark, in order, each once. -/
theorem ReplicaLog.offsets_committed (log : ReplicaLog α) :
    (log.items.filter fun r => r.offset < log.hw).map RecordItem.offset =
      (List.range (log.hw - log.logStart).toNat).map fun i : Nat => log.logStart + (i : Int) := by
  obtain ⟨n, hn⟩ := log.hw_batchEnd
  have htake : Contiguous log.logStart (log.batches.take n) := by
    have hc := log.contiguous
    rw [← List.take_append_drop n log.batches, contiguous_append] at hc
    exact hc.1
  have hlen : (log.hw - log.logStart).toNat = ((log.batches.take n).map fun b => b.records.length).sum := by
    rw [hn, endOffset]
    omega
  rw [log.committed_eq hn, htake.offsets, hlen]

/-- **The stream yields the committed records**: polled to its end, the stream of a replica
yields the value of every record below the high watermark, newest first, and then ends:
cleanly when the log starts at offset 0, with `OffsetEvicted` and a panic otherwise. -/
theorem ReplicaRevStream.collect_new (log : ReplicaLog α) : ∃ n, ∀ fuel, n ≤ fuel →
    collect log fuel (new log) =
      log.ending.prepend ((log.items.filter fun r => r.offset < log.hw).reverse.map fun r => .ok r.record) := by
  obtain ⟨k, hk⟩ := log.hw_batchEnd
  refine ⟨((log.batches.take k).map fun b => b.records.length + 2).sum + 3, fun fuel hfuel => ?_⟩
  obtain ⟨m, rfl⟩ := Nat.exists_eq_add_of_le hfuel
  have hfuel' : ((log.batches.take k).map fun b => b.records.length + 2).sum + 3 + m =
      m + 3 + ((log.batches.take k).map fun b => b.records.length + 2).sum := by omega
  rw [hfuel', ReplicaRevStream.new, hk, collect_batches log (m + 3) (List.take_prefix k _), collect_logStart,
    ← hk, log.committed_eq hk]

/-! ### The log of a key-value storage -/

/-- A replica whose log starts at offset 2 and whose high watermark ends its second batch. -/
def sampleReplica : ReplicaLog Nat where
  logStart := 2
  batches := [⟨2, [10, 20]⟩, ⟨4, [30]⟩, ⟨5, [40, 50]⟩]
  hw := 5
  logStart_nonneg := by decide
  nonempty := by simp
  contiguous := by simp [Contiguous]
  hw_batchEnd := ⟨2, rfl⟩

end Fluvio.Replication
