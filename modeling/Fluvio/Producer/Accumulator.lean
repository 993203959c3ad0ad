import Fluvio.Producer.MemoryBatch
import Fluvio.Lib.Trace

/-!
The record accumulator of one partition (`fluvio/src/producer/accumulator.rs`).

`RecordAccumulator::push_record` offers the record to the back batch of the partition's deque,
full or not; a record handed back goes to a new batch (`create_and_new_batch`), and an error of
the back batch is returned as it is. A new batch takes its first record or refuses it, so the
recursion of `create_and_new_batch` never runs and its `Attempts exceeded` error is never raised.

* `RecordAccumulator.pushRecord_cases` — what one call does to the deque;
* `RecordAccumulator.Inv` — over a run of calls: every queued batch is valid and non-empty, the
  queued records are the accepted ones in order, each future addresses its record, and the only
  error is `RecordTooLarge` over `max_request_size`; `RecordAccumulator.reachable_inv` proves it
  of every run from an empty deque, and `RecordAccumulator.Inv.push` of a call on a deque behind
  batches that have been flushed;
* `RecordAccumulator.future_addresses`, `RecordAccumulator.batches_within_limits` — what that
  says of each future and each batch;
* `largeFirst_refuses_small` — a record that fits an empty batch is refused with `RecordTooLarge`
  behind a batch whose first record was large.

There is no concurrent flush, so batches leave the deque only by being flushed, never here;
`wait_for_space` then returns only while the deque has room.
-/

namespace Fluvio.Producer

open Protocol

/-- The configuration `RecordAccumulator::push_record` reads. -/
structure RecordAccumulator where
  batchSize : Nat
  maxRequestSize : Nat
  queueSize : Nat
  compression : Compression

/-- `PartialFutureRecordMetadata`: the record's offset in its batch, and its batch. The
`Arc<BatchMetadata>` it holds is identified with the batch's position in the deque, which
nothing moves while no flush runs; across flushes, `behind` numbers it among all the
partition's batches. -/
structure PartialFutureRecordMetadata where
  relativeOffset : Int64
  batch : Nat
  deriving DecidableEq, Repr

/-- The future `f` of a deque behind `n` batches that have left it, its batch numbered among all
the partition's batches, those that left first. -/
def PartialFutureRecordMetadata.behind (n : Nat) (f : PartialFutureRecordMetadata) : PartialFutureRecordMetadata :=
  { f with batch := n + f.batch }

@[simp] theorem PartialFutureRecordMetadata.behind_zero (f : PartialFutureRecordMetadata) : f.behind 0 = f := by
  simp [behind]

/-- What `push_record` returns: the record's future, or the error. -/
abbrev PushResult := Except ProducerError PartialFutureRecordMetadata

/-- `ProducerBatch::new(self.max_request_size, self.batch_size, self.compression, ..)`: its
`MemoryBatch`, created at `now`. -/
def RecordAccumulator.newBatch (acc : RecordAccumulator) (now : Timestamp) : MemoryBatch :=
  MemoryBatch.new acc.maxRequestSize acc.batchSize acc.compression now

/-- `RecordAccumulator::create_and_new_batch` at the clock reading `now`: a new batch at the
back of the deque takes the record, or hands it on to the next attempt. -/
def RecordAccumulator.createAndNewBatch (acc : RecordAccumulator) (batches : List MemoryBatch)
    (record : Record RecordData) (attempts : Nat) (now : Timestamp) : Option (PushResult × List MemoryBatch) :=
  if attempts > 2 then
    some (.error (.internal "Attempts exceeded while creating a new batch"), batches)
  else
    match (acc.newBatch now).pushRecord record now with
    | none => none
    | some (.ok (.added offset), batch) => some (.ok ⟨offset, batches.length⟩, batches ++ [batch])
    | some (.ok (.notAdded record), batch) =>
      acc.createAndNewBatch (batches ++ [batch]) record (attempts + 1) now
    | some (.error err, _) => some (.error err, batches)
termination_by 3 - attempts

/-- `RecordAccumulator::push_record` on the partition's deque at the clock reading `now`: the
result and the deque after the call; `none` when the call does not return (`wait_for_space`
spins on a full deque, or a `write_size` does not return). -/
def RecordAccumulator.pushRecord (acc : RecordAccumulator) (batches : List MemoryBatch)
    (record : Record RecordData) (now : Timestamp) : Option (PushResult × List MemoryBatch) :=
  if acc.queueSize ≤ batches.length then none
  else
    match batches.getLast? with
    | some batch =>
      match batch.pushRecord record now with
      | none => none
      | some (.ok (.added offset), batch) =>
        some (.ok ⟨offset, batches.length - 1⟩, batches.dropLast ++ [batch])
      | some (.ok (.notAdded record), batch) =>
        acc.createAndNewBatch (batches.dropLast ++ [batch]) record 1 now
      | some (.error err, batch) => some (.error err, batches.dropLast ++ [batch])
    | none => acc.createAndNewBatch batches record 1 now

/-! ### What one call does -/

section Push

variable {acc : RecordAccumulator} {now : Timestamp}

/-- What `create_and_new_batch` does to the deque `batches`: a new batch takes the record, or
refuses it and the deque stays as it was. -/
inductive RecordAccumulator.Fresh (acc : RecordAccumulator) (now : Timestamp) (batches : List MemoryBatch)
    (r : Record RecordData) : PushResult → List MemoryBatch → Prop
  | added {size : Nat} {b' : MemoryBatch} : Encoder.writeSize ((acc.newBatch now).stamp r now) = some size →
      MemoryBatch.Pushed (acc.newBatch now) ((acc.newBatch now).stamp r now) size (.ok (.added 0)) b' →
      Fresh acc now batches r (.ok ⟨0, batches.length⟩) (batches ++ [b'])
  | refused {size : Nat} {e : ProducerError} {b' : MemoryBatch} :
      Encoder.writeSize ((acc.newBatch now).stamp r now) = some size →
      MemoryBatch.Pushed (acc.newBatch now) ((acc.newBatch now).stamp r now) size (.error e) b' →
      Fresh acc now batches r (.error e) batches

/-- Before its third attempt, `create_and_new_batch` does what its new batch does: the batch
never hands its first record back, so the recursion is never entered. -/
theorem RecordAccumulator.createAndNewBatch_fresh {batches batches' : List MemoryBatch}
    {record : Record RecordData} {attempts : Nat} {res : PushResult} (hatt : attempts ≤ 2)
    (h : acc.createAndNewBatch batches record attempts now = some (res, batches')) :
    acc.Fresh now batches record res batches' := by
  rw [createAndNewBatch, if_neg (by omega)] at h
  rcases hp : (acc.newBatch now).pushRecord record now with _ | ⟨st, b'⟩
  · rw [hp] at h
    cases h
  obtain ⟨size, hsize, hpushed⟩ := MemoryBatch.pushRecord_pushed hp
  rw [hp] at h
  rcases st with e | (offset | r')
  · simp only [Option.some.injEq, Prod.mk.injEq] at h
    obtain ⟨rfl, rfl⟩ := h
    exact .refused hsize hpushed
  · simp only [Option.some.injEq, Prod.mk.injEq] at h
    obtain ⟨rfl, rfl⟩ := h
    -- a new batch is empty, so the record goes in at offset 0
    cases hpushed with
    | added full hwrite hbatch => exact .added hsize (.added full hwrite hbatch)
  · exact absurd rfl hpushed.ne_notAdded_of_nil

/-- What the back batch's answer leads to: the future of the record it took, the new batch it
handed the record on to, or its error. -/
inductive RecordAccumulator.Back (acc : RecordAccumulator) (now : Timestamp) (init : List MemoryBatch)
    (b' : MemoryBatch) : Except ProducerError MemoryBatchStatus → PushResult → List MemoryBatch → Prop
  | added (offset : Int64) : Back acc now init b' (.ok (.added offset)) (.ok ⟨offset, init.length⟩) (init ++ [b'])
  | notAdded {r' : Record RecordData} {res : PushResult} {batches' : List MemoryBatch} :
      acc.Fresh now (init ++ [b']) r' res batches' → Back acc now init b' (.ok (.notAdded r')) res batches'
  | error (e : ProducerError) : Back acc now init b' (.error e) (.error e) (init ++ [b'])

/-- **What one `push_record` does**: on a deque with room, a new batch when the deque is empty,
otherwise the back batch's answer, whatever it holds. -/
theorem RecordAccumulator.pushRecord_cases {batches batches' : List MemoryBatch} {record : Record RecordData}
    {res : PushResult} (h : acc.pushRecord batches record now = some (res, batches')) :
    batches.length < acc.queueSize ∧
      ((batches = [] ∧ acc.Fresh now [] record res batches') ∨
       ∃ init b size st b', batches = init ++ [b] ∧ Encoder.writeSize (b.stamp record now) = some size ∧
         MemoryBatch.Pushed b (b.stamp record now) size st b' ∧ acc.Back now init b' st res batches') := by
  unfold pushRecord at h
  by_cases hfull : acc.queueSize ≤ batches.length
  · rw [if_pos hfull] at h
    cases h
  rw [if_neg hfull] at h
  refine ⟨by omega, ?_⟩
  rcases hlast : batches.getLast? with _ | b
  · rw [hlast] at h
    have hnil : batches = [] := List.getLast?_eq_none_iff.mp hlast
    subst hnil
    exact .inl ⟨rfl, acc.createAndNewBatch_fresh (by decide) h⟩
  rw [hlast] at h
  dsimp only at h
  -- the back batch, and the deque in front of it
  have hbatches : batches = batches.dropLast ++ [b] := (List.dropLast_append_getLast? b hlast).symm
  have hlen : batches.length - 1 = batches.dropLast.length := by simp
  rcases hp : b.pushRecord record now with _ | ⟨st, b'⟩
  · rw [hp] at h
    cases h
  obtain ⟨size, hsize, hpushed⟩ := MemoryBatch.pushRecord_pushed hp
  refine .inr ⟨batches.dropLast, b, size, st, b', hbatches, hsize, hpushed, ?_⟩
  rw [hp] at h
  rcases st with e | (offset | r')
  · simp only [Option.some.injEq, Prod.mk.injEq] at h
    obtain ⟨rfl, rfl⟩ := h
    exact .error e
  · simp only [Option.some.injEq, Prod.mk.injEq, hlen] at h
    obtain ⟨rfl, rfl⟩ := h
    exact .added offset
  · exact .notAdded (acc.createAndNewBatch_fresh (by decide) h)

end Push

/-! ### Runs of calls -/

/-- A queued batch as `push_record` leaves it: valid, non-empty, with the accumulator's limits. -/
structure RecordAccumulator.BatchOk (acc : RecordAccumulator) (b : MemoryBatch) : Prop where
  valid : b.Valid
  nonempty : b.records ≠ []
  batchLimit : b.batchLimit = acc.batchSize
  writeLimit : b.writeLimit = acc.maxRequestSize

/-- The only error `push_record` returns: `RecordTooLarge` of a size over `max_request_size`. -/
def RecordAccumulator.TooLarge (acc : RecordAccumulator) (e : ProducerError) : Prop :=
  ∃ size, e = .recordTooLarge size acc.maxRequestSize ∧ acc.maxRequestSize < size

/-- `r'` is `r` with its offset and timestamp deltas set. -/
def Stamps (r r' : Record RecordData) : Prop :=
  ∃ offsetDelta timestampDelta, r' = (r.setOffsetDelta offsetDelta).setTimestampDelta timestampDelta

theorem Stamps.trans {r r' r'' : Record RecordData} (h : Stamps r r') (h' : Stamps r' r'') : Stamps r r'' := by
  obtain ⟨o, t, rfl⟩ := h
  obtain ⟨o', t', rfl⟩ := h'
  exact ⟨o', t', rfl⟩

theorem stamps_stamp (b : MemoryBatch) (r : Record RecordData) (now : Timestamp) : Stamps r (b.stamp r now) :=
  ⟨_, _, rfl⟩

/-- `batches'` keeps every queued record where it was: the batches in front of the back one are
as they were, the back one may have grown, and new batches come after it. -/
def Extends (batches batches' : List MemoryBatch) : Prop :=
  ∀ i b, batches[i]? = some b → ∃ b', batches'[i]? = some b' ∧ b.records <+: b'.records ∧
    (i + 1 < batches.length → b'.records = b.records)

theorem extends_nil (batches' : List MemoryBatch) : Extends [] batches' := by
  intro i b hb
  simp at hb

/-- A back batch that grows, with new batches behind it, keeps every queued record. -/
theorem extends_back (init rest : List MemoryBatch) {b b' : MemoryBatch} (h : b.records <+: b'.records) :
    Extends (init ++ [b]) (init ++ [b'] ++ rest) := by
  intro i c hc
  rcases Nat.lt_or_ge i init.length with hi | hi
  · rw [List.getElem?_append_left hi] at hc
    refine ⟨c, ?_, List.prefix_refl _, fun _ => rfl⟩
    rw [List.append_assoc, List.getElem?_append_left hi, hc]
  · have hi' : i = init.length := by
      have := (List.getElem?_eq_some_iff.mp hc).1
      simp only [List.length_append, List.length_singleton] at this
      omega
    subst hi'
    simp only [List.getElem?_append_right (Nat.le_refl _), Nat.sub_self, List.getElem?_cons_zero,
      Option.some.injEq] at hc
    subst hc
    refine ⟨b', by simp, h, fun hlt => ?_⟩
    simp at hlt

/-- Batches in front of both keep their records. -/
theorem Extends.append_left (pre : List MemoryBatch) {batches batches' : List MemoryBatch}
    (h : Extends batches batches') : Extends (pre ++ batches) (pre ++ batches') := by
  intro i b hb
  rcases Nat.lt_or_ge i pre.length with hi | hi
  · rw [List.getElem?_append_left hi] at hb
    exact ⟨b, by rw [List.getElem?_append_left hi, hb], List.prefix_refl _, fun _ => rfl⟩
  · rw [List.getElem?_append_right hi] at hb
    obtain ⟨b', hb', hpre, hsame⟩ := h _ _ hb
    refine ⟨b', by rw [List.getElem?_append_right hi, hb'], hpre, fun hlt => hsame ?_⟩
    simp only [List.length_append] at hlt
    omega

/-- The `k`-th queued record is in batch `f.batch` at index `j`, the offset `f` carries. -/
def Locates (batches : List MemoryBatch) (f : PartialFutureRecordMetadata) (k : Nat) : Prop :=
  ∃ b ∈ batches[f.batch]?, ∃ j < b.records.length, f.relativeOffset = Int64.ofNat j ∧
    ((batches.take f.batch).map fun b => b.records.length).sum + j = k

/-- A record keeps its address while the deque only grows at the back. -/
theorem Locates.of_extends {batches batches' : List MemoryBatch} {f : PartialFutureRecordMetadata} {k : Nat}
    (hext : Extends batches batches') (h : Locates batches f k) : Locates batches' f k := by
  obtain ⟨b, hb, j, hj, hoff, hsum⟩ := h
  obtain ⟨b', hb', hpre, -⟩ := hext _ _ hb
  have hlen : f.batch < batches.length := (List.getElem?_eq_some_iff.mp hb).1
  -- the batches in front of the record's are the same in both
  have htake : (batches'.take f.batch).map (fun b => b.records.length) =
      (batches.take f.batch).map fun b => b.records.length := by
    apply List.ext_getElem?
    intro i
    simp only [List.getElem?_map, List.getElem?_take]
    split_ifs with hi
    · have hlt : i < batches.length := by omega
      obtain ⟨c', hc', -, hsame⟩ := hext i batches[i] (List.getElem?_eq_getElem hlt)
      rw [hc', List.getElem?_eq_getElem hlt, Option.map_some, Option.map_some, hsame (by omega)]
    · rfl
  exact ⟨b', hb', j, lt_of_lt_of_le hj hpre.length_le, hoff, by rw [htake]; exact hsum⟩

/-- The `j`-th record of a batch put behind `init` follows the records of `init`. -/
theorem locates_last (init : List MemoryBatch) (c : MemoryBatch) {j : Nat} (hj : j < c.records.length) :
    Locates (init ++ [c]) ⟨Int64.ofNat j, init.length⟩ ((init.flatMap MemoryBatch.records).length + j) := by
  refine ⟨c, by simp, j, hj, rfl, ?_⟩
  simp [List.length_flatMap]

/-- Behind batches that left the deque, a future counts them in its batch, and their records in
its record's address. -/
theorem Locates.append_left (pre : List MemoryBatch) {batches : List MemoryBatch} {f : PartialFutureRecordMetadata}
    {k : Nat} (h : Locates batches f k) :
    Locates (pre ++ batches) (f.behind pre.length) ((pre.flatMap MemoryBatch.records).length + k) := by
  obtain ⟨b, hb, j, hj, hoff, hsum⟩ := h
  refine ⟨b, ?_, j, hj, hoff, ?_⟩
  · dsimp only [PartialFutureRecordMetadata.behind]
    rw [List.getElem?_append_right (by omega), Nat.add_sub_cancel_left]
    exact hb
  · dsimp only [PartialFutureRecordMetadata.behind]
    rw [List.take_length_add_append, List.map_append, List.sum_append, ← hsum, List.length_flatMap, Nat.add_assoc]

theorem MemoryBatch.Pushed.tooLarge_of_error {b b' : MemoryBatch} {r : Record RecordData} {size : Nat}
    {e : ProducerError} (h : Pushed b r size (.error e) b') :
    e = .recordTooLarge (b.rawSize + size) b.writeLimit ∧ b.writeLimit < b.rawSize + size := by
  cases h with
  | tooLarge hwrite => exact ⟨rfl, hwrite⟩

section Outcome

variable {acc : RecordAccumulator} {now : Timestamp}

/-- A batch a queued batch's `push_record` leaves is still queued as it should be. -/
theorem RecordAccumulator.BatchOk.pushed {b b' : MemoryBatch} {r : Record RecordData} {size : Nat}
    {st : Except ProducerError MemoryBatchStatus} (hb : acc.BatchOk b) (hsize : Encoder.writeSize (b.stamp r now) = some size)
    (h : MemoryBatch.Pushed b (b.stamp r now) size st b') : acc.BatchOk b' ∧ b.records <+: b'.records := by
  have hcfg := h.sameConfig
  refine ⟨⟨hb.valid.pushed hsize h, ?_, hcfg.batchLimit.trans hb.batchLimit, hcfg.writeLimit.trans hb.writeLimit⟩, ?_⟩
  · cases h with
    | tooLarge => exact hb.nonempty
    | added => simp
    | notAdded => exact hb.nonempty
  · cases h with
    | tooLarge => exact List.prefix_refl _
    | added => exact List.prefix_append _ _
    | notAdded => exact List.prefix_refl _

/-- What `create_and_new_batch` leaves: a new queued batch holding just the stamped record, or
the deque as it was and `RecordTooLarge`. -/
theorem RecordAccumulator.Fresh.outcome {batches batches' : List MemoryBatch} {r : Record RecordData}
    {res : PushResult} (h : acc.Fresh now batches r res batches') :
    (∃ c x, res = .ok ⟨0, batches.length⟩ ∧ batches' = batches ++ [c] ∧ c.records = [x] ∧ Stamps r x ∧
      acc.BatchOk c) ∨
    (∃ e, res = .error e ∧ batches' = batches ∧ acc.TooLarge e) := by
  cases h with
  | @added size b' hsize hpushed =>
    cases hpushed with
    | added full hwrite hbatch =>
      refine .inl ⟨_, _, rfl, rfl, rfl, stamps_stamp _ _ _, ?_⟩
      exact ⟨(MemoryBatch.valid_new _ _ _ _).pushed hsize (.added full hwrite hbatch), by simp, rfl, rfl⟩
  | @refused size e b' hsize hpushed =>
    obtain ⟨rfl, hwrite⟩ := hpushed.tooLarge_of_error
    exact .inr ⟨_, rfl, rfl, _, rfl, hwrite⟩

/-- **One call, by its result**: an accepted record is stamped onto the end of the queued
records and addressed by its future, a refused one leaves them as they were and is too large;
either way every queued record stays where it was and every queued batch is as it should be. -/
theorem RecordAccumulator.pushRecord_outcome {batches batches' : List MemoryBatch} {r : Record RecordData}
    {res : PushResult} (hok : ∀ b ∈ batches, acc.BatchOk b) (h : acc.pushRecord batches r now = some (res, batches')) :
    (∀ b ∈ batches', acc.BatchOk b) ∧ Extends batches batches' ∧
      ((∃ f x, res = .ok f ∧ Stamps r x ∧
          batches'.flatMap MemoryBatch.records = batches.flatMap MemoryBatch.records ++ [x] ∧
          Locates batches' f (batches.flatMap MemoryBatch.records).length) ∨
       (∃ e, res = .error e ∧ batches'.flatMap MemoryBatch.records = batches.flatMap MemoryBatch.records ∧
          acc.TooLarge e)) := by
  obtain ⟨-, ⟨rfl, hfresh⟩ | ⟨init, b, size, st, b', rfl, hsize, hpushed, hback⟩⟩ := acc.pushRecord_cases h
  · -- an empty deque: a new batch
    rcases hfresh.outcome with ⟨c, x, rfl, rfl, hc, hx, hcok⟩ | ⟨e, rfl, rfl, he⟩
    · refine ⟨by simpa using hcok, extends_nil _, .inl ⟨_, x, rfl, hx, by simp [hc], ?_⟩⟩
      simpa using locates_last [] c (j := 0) (by simp [hc])
    · exact ⟨by simp, extends_nil _, .inr ⟨e, rfl, rfl, he⟩⟩
  have hb : acc.BatchOk b := hok b (by simp)
  have hinit : ∀ c ∈ init, acc.BatchOk c := fun c hc => hok c (by simp [hc])
  obtain ⟨hb'ok, hpre⟩ := hb.pushed hsize hpushed
  cases hback with
  | added offset =>
    -- the back batch took the record at the end
    cases hpushed with
    | added full hwrite hbatch =>
      refine ⟨?_, by simpa using extends_back init [] hpre, .inl ⟨_, _, rfl, stamps_stamp b r now, ?_, ?_⟩⟩
      · simpa [or_imp, forall_and] using ⟨hinit, hb'ok⟩
      · simp
      · simpa using locates_last init _ (j := b.records.length) (by simp)
  | notAdded hfresh =>
    -- the back batch handed the stamped record on to a new batch
    have hr' : Stamps r _ := stamps_stamp b r now
    cases hpushed with
    | notAdded =>
      rcases hfresh.outcome with ⟨c, x, rfl, rfl, hc, hx, hcok⟩ | ⟨e, rfl, rfl, he⟩
      · refine ⟨?_, extends_back init [_] hpre, .inl ⟨_, x, rfl, hr'.trans hx, by simp [hc], ?_⟩⟩
        · simpa [or_imp, forall_and] using ⟨hinit, hb'ok, hcok⟩
        · have hflat : (init ++ [{ b with isFull := true }]).flatMap MemoryBatch.records =
              (init ++ [b]).flatMap MemoryBatch.records := by simp
          have hloc := locates_last (init ++ [{ b with isFull := true }]) c (j := 0) (by simp [hc])
          rw [hflat, Nat.add_zero] at hloc
          exact hloc
      · refine ⟨?_, by simpa using extends_back init [] hpre, .inr ⟨e, rfl, by simp, he⟩⟩
        simpa [or_imp, forall_and] using ⟨hinit, hb'ok⟩
  | error e =>
    have hsame : b'.records = b.records := hpushed.records_of_not_added (fun _ h => by cases h)
    obtain ⟨rfl, hwrite⟩ := hpushed.tooLarge_of_error
    refine ⟨?_, by simpa using extends_back init [] hpre,
      .inr ⟨_, rfl, by simp [hsame], _, by rw [hb.writeLimit], by rw [← hb.writeLimit]; exact hwrite⟩⟩
    simpa [or_imp, forall_and] using ⟨hinit, hb'ok⟩

end Outcome

/-! ### Over a run -/

/-- The partition's deque, with the records each call was given and what it returned: a history
the code does not keep, to state what a run does. -/
structure PushLog where
  batches : List MemoryBatch
  pushes : List (Record RecordData × PushResult)

/-- One `push_record` of `record` at the clock reading `now`. -/
def RecordAccumulator.next (acc : RecordAccumulator) (s : PushLog) (call : Record RecordData × Timestamp) :
    Option PushLog :=
  (acc.pushRecord s.batches call.1 call.2).map fun p => ⟨p.2, s.pushes ++ [(call.1, p.1)]⟩

/-- The records a run accepted, with the futures it returned for them. -/
def accepted (pushes : List (Record RecordData × PushResult)) :
    List (Record RecordData × PartialFutureRecordMetadata) :=
  pushes.filterMap fun p => match p.2 with
    | .ok f => some (p.1, f)
    | .error _ => none

theorem accepted_append_ok (pushes : List (Record RecordData × PushResult)) (r : Record RecordData)
    (f : PartialFutureRecordMetadata) : accepted (pushes ++ [(r, .ok f)]) = accepted pushes ++ [(r, f)] := by
  simp [accepted, List.filterMap_append]

theorem accepted_append_error (pushes : List (Record RecordData × PushResult)) (r : Record RecordData)
    (e : ProducerError) : accepted (pushes ++ [(r, .error e)]) = accepted pushes := by
  simp [accepted, List.filterMap_append]

/-- What holds after every run: the queued batches are as they should be, the queued records
are the accepted ones stamped, in order, the future of the `k`-th accepted record addresses the
`k`-th queued one, and every error is `RecordTooLarge` over `max_request_size`. -/
structure RecordAccumulator.Inv (acc : RecordAccumulator) (s : PushLog) : Prop where
  batches : ∀ b ∈ s.batches, acc.BatchOk b
  records : List.Forall₂ (fun p r => Stamps p.1 r) (accepted s.pushes) (s.batches.flatMap MemoryBatch.records)
  futures : ∀ k (hk : k < (accepted s.pushes).length), Locates s.batches (accepted s.pushes)[k].2 k
  errors : ∀ p ∈ s.pushes, ∀ e, p.2 = .error e → acc.TooLarge e

theorem RecordAccumulator.inv_empty (acc : RecordAccumulator) : acc.Inv ⟨[], []⟩ where
  batches := by simp
  records := .nil
  futures k hk := absurd hk (by simp [accepted])
  errors := by simp

/-- A call whose error is too large keeps every error of the run too large. -/
theorem errors_append {acc : RecordAccumulator} {pushes : List (Record RecordData × PushResult)}
    {r : Record RecordData} {res : PushResult} (h : ∀ p ∈ pushes, ∀ e, p.2 = .error e → acc.TooLarge e)
    (hres : ∀ e, res = .error e → acc.TooLarge e) : ∀ p ∈ pushes ++ [(r, res)], ∀ e, p.2 = .error e → acc.TooLarge e := by
  intro p hp e he
  rcases List.mem_append.mp hp with hp | hp
  · exact h p hp e he
  · rw [List.mem_singleton.mp hp] at he
    exact hres e he

/-- **One call keeps the invariant**, on a deque behind batches that have left it, with the new
future's batch numbered among all the partition's batches. -/
theorem RecordAccumulator.Inv.push {acc : RecordAccumulator} {pre batches batches' : List MemoryBatch}
    {pushes : List (Record RecordData × PushResult)} {r : Record RecordData} {now : Timestamp} {res : PushResult}
    (hinv : acc.Inv ⟨pre ++ batches, pushes⟩) (h : acc.pushRecord batches r now = some (res, batches')) :
    acc.Inv ⟨pre ++ batches', pushes ++ [(r, res.map (·.behind pre.length))]⟩ := by
  obtain ⟨hok, hext, hres⟩ :=
    acc.pushRecord_outcome (fun b hb => hinv.batches b (List.mem_append_right _ hb)) h
  have hbatches : ∀ b ∈ pre ++ batches', acc.BatchOk b := by
    intro b hb
    rcases List.mem_append.mp hb with hb | hb
    · exact hinv.batches b (List.mem_append_left _ hb)
    · exact hok b hb
  have hlen := hinv.records.length_eq
  rcases hres with ⟨f, x, rfl, hx, hflat, hloc⟩ | ⟨e, rfl, hflat, he⟩
  · refine ⟨hbatches, ?_, ?_, errors_append hinv.errors fun _ h => by cases h⟩
    · rw [Except.map, accepted_append_ok, List.flatMap_append, hflat, ← List.append_assoc, ← List.flatMap_append]
      exact List.rel_append hinv.records (.cons hx .nil)
    · -- the earlier futures keep their records; the new one is the next
      intro k hk
      simp only [Except.map, accepted_append_ok, List.length_append, List.length_singleton] at hk ⊢
      rcases Nat.lt_or_ge k (accepted pushes).length with hlt | hge
      · rw [List.getElem_append_left hlt]
        exact (hinv.futures k hlt).of_extends (hext.append_left pre)
      · have hk' : k = (accepted pushes).length := by omega
        subst hk'
        have hnext := hloc.append_left pre
        rw [← List.length_append, ← List.flatMap_append, ← hlen] at hnext
        simpa using hnext
  · refine ⟨hbatches, ?_, ?_, errors_append hinv.errors fun _ h => by cases h; exact he⟩
    · rw [Except.map, accepted_append_error, List.flatMap_append, hflat, ← List.flatMap_append]
      exact hinv.records
    · intro k hk
      simp only [Except.map, accepted_append_error] at hk ⊢
      exact (hinv.futures k hk).of_extends (hext.append_left pre)

/-- **One call keeps the invariant.** -/
theorem RecordAccumulator.Inv.next {acc : RecordAccumulator} {s s' : PushLog}
    {call : Record RecordData × Timestamp} (hinv : acc.Inv s) (h : acc.next s call = some s') : acc.Inv s' := by
  obtain ⟨⟨res, batches'⟩, hpush, rfl⟩ := Option.map_eq_some_iff.mp h
  -- nothing has left the deque
  have hinv' : acc.Inv ⟨[] ++ s.batches, s.pushes⟩ := hinv
  have hnext := hinv'.push hpush
  have hres : res.map (·.behind ([] : List MemoryBatch).length) = res := by
    cases res <;> simp [Except.map]
  rw [hres] at hnext
  exact hnext

/-- **Every run of `push_record` from an empty deque keeps the invariant.** -/
theorem RecordAccumulator.reachable_inv {acc : RecordAccumulator} {s : PushLog}
    (h : Trace.Reachable acc.next ⟨[], []⟩ s) : acc.Inv s :=
  h.invariant acc.inv_empty fun _ _ _ hs hnext => hs.next hnext

/-- The record at index `j` of batch `i` is the queued record after the batches in front. -/
theorem getElem?_flatMap_records {batches : List MemoryBatch} {i j : Nat} {b : MemoryBatch}
    (hb : batches[i]? = some b) (hj : j < b.records.length) :
    (batches.flatMap MemoryBatch.records)[((batches.take i).map fun b => b.records.length).sum + j]? =
      b.records[j]? := by
  induction batches generalizing i with
  | nil => simp at hb
  | cons c cs ih =>
    cases i with
    | zero =>
      simp only [List.getElem?_cons_zero, Option.some.injEq] at hb
      subst hb
      simp [List.getElem?_append_left hj]
    | succ i =>
      simp only [List.getElem?_cons_succ] at hb
      simp only [List.flatMap_cons, List.take_succ_cons, List.map_cons, List.sum_cons, Nat.add_assoc]
      rw [List.getElem?_append_right (by omega), Nat.add_sub_cancel_left]
      exact ih hb

section Run

variable {acc : RecordAccumulator} {s : PushLog}

/-- Where the future of the `k`-th accepted record points under the invariant: a queued batch
and an index in it, after the records of the batches in front, at which sits the record, stamped,
with that index as its offset delta. -/
theorem RecordAccumulator.Inv.addresses (hinv : acc.Inv s) (k : Nat) (hk : k < (accepted s.pushes).length) :
    ∃ b ∈ s.batches[(accepted s.pushes)[k].2.batch]?, ∃ j, ∃ hj : j < b.records.length,
      (accepted s.pushes)[k].2.relativeOffset = Int64.ofNat j ∧
      ((s.batches.take (accepted s.pushes)[k].2.batch).map fun b => b.records.length).sum + j = k ∧
      (b.records[j]).preamble.offsetDelta = Int64.ofNat j ∧ Stamps (accepted s.pushes)[k].1 b.records[j] := by
  obtain ⟨b, hb, j, hj, hoff, hsum⟩ := hinv.futures k hk
  have hbok := hinv.batches b (List.mem_of_getElem? hb)
  refine ⟨b, hb, j, hj, hoff, hsum, hbok.valid.offsets j hj, ?_⟩
  -- the `k`-th queued record is the one the future addresses
  have hflat := getElem?_flatMap_records hb hj
  rw [hsum] at hflat
  have hk' : k < (s.batches.flatMap MemoryBatch.records).length := hinv.records.length_eq ▸ hk
  have hkth : (s.batches.flatMap MemoryBatch.records)[k] = b.records[j] := by
    rw [List.getElem?_eq_getElem hk', List.getElem?_eq_getElem hj, Option.some.injEq] at hflat
    exact hflat
  have hstamp := hinv.records.get hk hk'
  simp only [List.get_eq_getElem, hkth] at hstamp
  exact hstamp

/-- **Futures address their records**: after every run, the future of each accepted record
names a queued batch and an index in it, at which sits the record, stamped, with that index as
its offset delta. -/
theorem RecordAccumulator.future_addresses (h : Trace.Reachable acc.next ⟨[], []⟩ s) (k : Nat)
    (hk : k < (accepted s.pushes).length) :
    ∃ b ∈ s.batches[(accepted s.pushes)[k].2.batch]?, ∃ j, ∃ hj : j < b.records.length,
      (accepted s.pushes)[k].2.relativeOffset = Int64.ofNat j ∧
      (b.records[j]).preamble.offsetDelta = Int64.ofNat j ∧ Stamps (accepted s.pushes)[k].1 b.records[j] := by
  obtain ⟨b, hb, j, hj, hoff, -, hdelta, hstamp⟩ := (reachable_inv h).addresses k hk
  exact ⟨b, hb, j, hj, hoff, hdelta, hstamp⟩

/-- **Batch sizes**: after every run, each queued batch goes out as a `Batch` whose `write_size`
is its `raw_size`, at most `max_request_size`, and at most `batch_size` once it holds two
records. -/
theorem RecordAccumulator.batches_within_limits (h : Trace.Reachable acc.next ⟨[], []⟩ s) :
    ∀ b ∈ s.batches, ∃ batch, b.toBatch = some batch ∧ Batch.writeSize batch = some b.rawSize ∧
      b.rawSize ≤ acc.maxRequestSize ∧ (1 < b.records.length → b.rawSize ≤ acc.batchSize) := by
  intro b hb
  have hbok := (reachable_inv h).batches b hb
  obtain ⟨batch, hbatch, -, hsize⟩ := MemoryBatch.writeSize_toBatch hbok.valid
  refine ⟨batch, hbatch, hsize, ?_, fun hlen => ?_⟩
  · rw [← hbok.writeLimit]
    exact hbok.valid.write hbok.nonempty
  · rw [← hbok.batchLimit]
    exact hbok.valid.batch hlen

end Run

/-! ### Refused though it fits -/

/-- Batches of 50 bytes in requests of 100. -/
def tightAccumulator : RecordAccumulator := ⟨50, 100, 10, .none⟩

/-- A record of 37 bytes as the first of a batch. -/
def largeRecord : Record RecordData := ⟨default, none, ⟨List.replicate 30 0x61⟩, 0⟩

/-- A record of 17 bytes as the first of a batch. -/
def smallRecord : Record RecordData := ⟨default, none, ⟨List.replicate 10 0x62⟩, 0⟩

/-- After the large record, which fills a batch alone, the small one is refused with
`RecordTooLarge` (the back batch and it come to 115 bytes), though a new batch takes it. -/
theorem largeFirst_refuses_small :
    (Trace.run tightAccumulator.next ⟨[], []⟩ [(largeRecord, 0), (smallRecord, 0)]).map (·.pushes.map Prod.snd) =
      some [.ok ⟨0, 0⟩, .error (.recordTooLarge 115 100)] ∧
    ((tightAccumulator.newBatch 0).pushRecord smallRecord 0).map Prod.fst = some (.ok (.added 0)) := by
  refine ⟨?_, by decide⟩
  simp only [Trace.run, RecordAccumulator.next, RecordAccumulator.pushRecord]
  -- the first call starts a batch; the second goes to it and stops at its error
  rw [RecordAccumulator.createAndNewBatch]
  decide

end Fluvio.Producer
