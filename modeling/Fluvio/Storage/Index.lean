import Fluvio.Storage.Recovery
import Fluvio.Lib.Search

/-!
The sparse offset index of a segment and the lookup of the batch that holds an offset
(`fluvio-storage`: `index.rs`, `mut_index.rs`, `records.rs`, `segment.rs`).

`write_index` records an entry `(relative offset, file position)` for a batch only once the
bytes of the batches since the last entry have reached `index_max_interval_bytes`, and only
while one of the `index_max_bytes / 8` slots is free. `find_offset` looks the target's
relative offset up with `lookup_entry`: nothing below the first entry, otherwise the entry a
binary search lands on, or the one before the insertion point (`lookupEntry_le`: never an
entry above the target; `lookupEntry_last_le`: on strictly increasing offsets, the last entry
not above it). `find_offset_position` reads batch headers from that entry's
position, or from the start of the file, until a batch's last offset reaches the target
(`scanHeaders_layout`), and `records_slice` slices the log file from that batch on.

`Segment` is generic in its index and its log file, as in the source: the active segment
has the `MutLogIndex` entries and the `MutFileRecords` file, a read segment the `LogIndex`
and the `FileRecordsSlice` of the same files.

`u32` arithmetic wraps, as in a release build.
-/

namespace Fluvio.Storage

open Fluvio.Protocol Search

/-! ### Index entries -/

/-- `Entry`: a relative offset and a file position. The source stores both words big-endian
and swaps them back on reading (`to_be`); the model keeps the values. -/
abbrev Entry := Nat × Nat

/-- The entries of `MutLogIndex`: the interval and the slot count from the configuration, the
bytes of the batches since the last entry, and the slots before `first_empty_slot`. The
check on relative offsets at the head of `write_index` is `MutLogIndex.writeIndex`. -/
structure IndexEntries where
  maxIndexInterval : Nat
  maxEntries : Nat
  accumulatedBatchLen : Nat
  entries : List Entry
deriving DecidableEq, Repr

/-- `MutLogIndex::write_index` after its check: below the interval the batch's size is
accumulated; otherwise the entry goes to the first empty slot, if there is one, and the
count starts again. -/
def IndexEntries.writeIndex (idx : IndexEntries) (offsetDelta filePosition batchSize : Nat) : IndexEntries :=
  if idx.accumulatedBatchLen < idx.maxIndexInterval then
    { idx with accumulatedBatchLen := (idx.accumulatedBatchLen + batchSize) % 2 ^ 32 }
  else if idx.entries.length < idx.maxEntries then
    { idx with entries := idx.entries ++ [(offsetDelta, filePosition)], accumulatedBatchLen := 0 }
  else
    -- "index position ... is greater than max entries ..., ignoring"
    idx

/-- A write keeps the entries or adds the batch's entry after them. -/
theorem IndexEntries.writeIndex_entries (idx : IndexEntries) (offsetDelta filePosition batchSize : Nat) :
    (idx.writeIndex offsetDelta filePosition batchSize).entries = idx.entries ∨
      (idx.writeIndex offsetDelta filePosition batchSize).entries = idx.entries ++ [(offsetDelta, filePosition)] := by
  unfold IndexEntries.writeIndex
  split
  · exact .inl rfl
  · split
    · exact .inr rfl
    · exact .inl rfl

/-! ### `lookup_entry` -/

/-- `lookup_entry`: nothing below the first entry; otherwise the index a binary search by
relative offset returns, or the one before its insertion point. `offsets[0]` needs an
entry, which both callers have. -/
def lookupEntry (offsets : List Entry) (h : offsets ≠ []) (offset : Nat) : Option Nat :=
  let firstEntry := offsets.head h
  if offset < firstEntry.1 then none
  else
    match binarySearchBy offsets (fun entry => compare entry.1 offset) with
    | .ok idx => some idx
    | .error idx => some (idx - 1)

/-- A target not below the first entry is not inserted before it, so `idx - 1` does not wrap. -/
theorem binarySearchBy_error_pos {offsets : List Entry} (h : offsets ≠ []) {offset idx : Nat}
    (hfirst : ¬ offset < (offsets.head h).1)
    (herr : binarySearchBy offsets (fun entry => compare entry.1 offset) = .error idx) : 0 < idx := by
  obtain ⟨-, -, hat⟩ := binarySearchBy_error herr
  rcases Nat.eq_zero_or_pos idx with rfl | hpos
  · have hgt := hat (List.length_pos_iff.mpr h)
    rw [List.getElem_zero_eq_head] at hgt
    exact absurd (Nat.compare_eq_gt.mp hgt) hfirst
  · exact hpos

theorem lookupEntry_eq_none {offsets : List Entry} {h : offsets ≠ []} {offset : Nat} :
    lookupEntry offsets h offset = none ↔ offset < (offsets.head h).1 := by
  dsimp only [lookupEntry]
  split
  · exact iff_of_true rfl ‹_›
  · refine iff_of_false ?_ ‹_›
    split <;> simp

/-- What `lookup_entry` returns when it returns an index: a match of the search, or the entry
before its insertion point. -/
theorem lookupEntry_eq_some {offsets : List Entry} {h : offsets ≠ []} {offset i : Nat} :
    lookupEntry offsets h offset = some i ↔ ¬ offset < (offsets.head h).1 ∧
      (binarySearchBy offsets (fun entry => compare entry.1 offset) = .ok i ∨
        binarySearchBy offsets (fun entry => compare entry.1 offset) = .error (i + 1)) := by
  dsimp only [lookupEntry]
  split
  · rename_i hfirst
    simp [hfirst]
  · rename_i hfirst
    split
    · rename_i idx hok
      simp [hfirst, hok]
    · rename_i idx herr
      have hpos := binarySearchBy_error_pos h hfirst herr
      simp only [hfirst, herr, not_false_eq_true, true_and, Option.some.injEq, reduceCtorEq, false_or,
        Except.error.injEq]
      omega

/-- **`lookup_entry` never returns an entry above the target**, and its index is in range: a
match is the target, and the entry before an insertion point is below it. -/
theorem lookupEntry_le {offsets : List Entry} {h : offsets ≠ []} {offset i : Nat}
    (hi : lookupEntry offsets h offset = some i) : ∃ hlt : i < offsets.length, offsets[i].1 ≤ offset := by
  obtain ⟨-, hok | herr⟩ := lookupEntry_eq_some.mp hi
  · obtain ⟨hlt, heq, -⟩ := binarySearchBy_ok hok
    exact ⟨hlt, Nat.le_of_eq (Nat.compare_eq_eq.mp heq)⟩
  · obtain ⟨hle, hbelow, -⟩ := binarySearchBy_error herr
    have hlt : i < offsets.length := by omega
    exact ⟨hlt, Nat.le_of_lt (Nat.compare_eq_lt.mp (hbelow i (Nat.lt_succ_self i) hlt))⟩

/-- **`lookup_entry` finds the last entry not above the target**: on entries whose offsets
strictly increase, it returns nothing exactly when the target is below the first entry, and
otherwise an entry not above the target whose successor, if there is one, is above it. -/
theorem lookupEntry_last_le {offsets : List Entry} (h : offsets ≠ [])
    (hsorted : (offsets.map Prod.fst).Pairwise (· < ·)) (offset : Nat) :
    (lookupEntry offsets h offset = none ↔ offset < (offsets.head h).1) ∧
      ∀ i, lookupEntry offsets h offset = some i →
        ∃ hi : i < offsets.length, offsets[i].1 ≤ offset ∧
          ∀ hnext : i + 1 < offsets.length, offset < offsets[i + 1].1 := by
  refine ⟨lookupEntry_eq_none, fun i hi => ?_⟩
  obtain ⟨hlt, hle⟩ := lookupEntry_le hi
  refine ⟨hlt, hle, fun hnext => ?_⟩
  obtain ⟨-, hok | herr⟩ := lookupEntry_eq_some.mp hi
  · -- a match is the target, and the next entry is above it
    obtain ⟨_, hmatch, -⟩ := binarySearchBy_ok hok
    have hinc : offsets[i].1 < offsets[i + 1].1 := by
      have := List.pairwise_iff_getElem.mp hsorted i (i + 1) (by simpa using hlt) (by simpa using hnext)
        (Nat.lt_succ_self i)
      simpa using this
    rwa [Nat.compare_eq_eq.mp hmatch] at hinc
  · -- the next entry is the insertion point, above the target
    obtain ⟨-, -, hat⟩ := binarySearchBy_error herr
    exact Nat.compare_eq_gt.mp (hat hnext)

/-- Three index entries, searched between the second and the third. -/
def threeEntries : List Entry := [(0, 0), (5, 100), (9, 200)]

theorem threeEntries_lookup :
    (threeEntries.map Prod.fst).Pairwise (· < ·) ∧ lookupEntry threeEntries (List.cons_ne_nil _ _) 7 = some 1 ∧
      ((lookupEntry threeEntries (List.cons_ne_nil _ _) 7 = none ↔
          7 < (threeEntries.head (List.cons_ne_nil _ _)).1) ∧
        ∀ i, lookupEntry threeEntries (List.cons_ne_nil _ _) 7 = some i →
          ∃ hi : i < threeEntries.length, threeEntries[i].1 ≤ 7 ∧
            ∀ hnext : i + 1 < threeEntries.length, 7 < threeEntries[i + 1].1) :=
  ⟨by decide, by decide, lookupEntry_last_le _ (by decide) 7⟩

/-- The `Index` trait: the entry for a relative offset. -/
class Index (I : Type) where
  findOffset : I → Nat → Option Entry

/-- `MutLogIndex::find_offset`: nothing while no slot is filled, else the entry that
`lookup_entry` finds among the filled slots. -/
def IndexEntries.findOffset (idx : IndexEntries) (relativeOffset : Nat) : Option Entry :=
  if h : idx.entries = [] then none
  else (lookupEntry idx.entries h relativeOffset).bind fun i => idx.entries[i]?

instance : Index IndexEntries := ⟨IndexEntries.findOffset⟩

/-- `LogIndex`: the entries of a closed segment's index file. The memory map holds at least
one entry. -/
structure LogIndex where
  entries : List Entry
  nonempty : entries ≠ []

/-- `LogIndex::open_from_offset` on the file that `shrink` cut to the filled slots: those
entries, or for an empty file the one zero entry of its memory map of `INDEX_ENTRY_SIZE`
bytes. -/
def LogIndex.openFromOffset (entries : List Entry) : LogIndex :=
  if h : entries = [] then ⟨[(0, 0)], List.cons_ne_nil _ _⟩ else ⟨entries, h⟩

/-- `LogIndex::find_offset`. -/
def LogIndex.findOffset (index : LogIndex) (offset : Nat) : Option Entry :=
  (lookupEntry index.entries index.nonempty offset).bind fun i => index.entries[i]?

instance : Index LogIndex := ⟨LogIndex.findOffset⟩

/-- What `lookup_entry` finds through `find_offset` is an entry not above the target. -/
theorem mem_of_lookupEntry_bind {offsets : List Entry} {h : offsets ≠ []} {offset : Nat} {e : Entry}
    (he : ((lookupEntry offsets h offset).bind fun i => offsets[i]?) = some e) :
    e ∈ offsets ∧ e.1 ≤ offset := by
  obtain ⟨i, hi, hget⟩ := Option.bind_eq_some_iff.mp he
  obtain ⟨hlt, hle⟩ := lookupEntry_le hi
  rw [List.getElem?_eq_getElem hlt, Option.some.injEq] at hget
  subst hget
  exact ⟨List.getElem_mem hlt, hle⟩

theorem IndexEntries.findOffset_spec {idx : IndexEntries} {offset : Nat} {e : Entry}
    (he : idx.findOffset offset = some e) : e ∈ idx.entries ∧ e.1 ≤ offset := by
  unfold IndexEntries.findOffset at he
  split at he
  · cases he
  · exact mem_of_lookupEntry_bind he

theorem LogIndex.findOffset_spec {index : LogIndex} {offset : Nat} {e : Entry}
    (he : index.findOffset offset = some e) : e ∈ index.entries ∧ e.1 ≤ offset :=
  mem_of_lookupEntry_bind he

/-- The entries of the reopened index are the shrunk file's, or the zero entry. -/
theorem LogIndex.mem_openFromOffset {entries : List Entry} {e : Entry}
    (he : e ∈ (LogIndex.openFromOffset entries).entries) : e ∈ entries ∨ e = (0, 0) := by
  unfold LogIndex.openFromOffset at he
  split at he
  · exact .inr (List.mem_singleton.mp he)
  · exact .inl he

/-! ### The log file -/

/-- `AsyncFileSlice`: a range of the log file. -/
structure FileSlice where
  position : Nat
  len : Nat
deriving DecidableEq, Repr

/-- The `FileRecords` trait: the file's bytes, and its slices, failing with an `io::Error`'s
message. -/
class FileRecords (L : Type) where
  bytes : L → List UInt8
  asFileSlice : L → Nat → Except String FileSlice
  asFileSliceFromTo : L → Nat → Nat → Except String FileSlice

/-- `MutFileRecords::as_file_slice` and `as_file_slice_from_to`: no check. -/
instance : FileRecords MutFileRecords where
  bytes log := log.bytes
  asFileSlice log start := .ok ⟨start, (log.bytes.length + 2 ^ 32 - start) % 2 ^ 32⟩
  asFileSliceFromTo _ start len := .ok ⟨start, len⟩

/-- `FileRecordsSlice`: a closed segment's log file. -/
structure FileRecordsSlice where
  bytes : List UInt8
deriving DecidableEq, Repr

/-- `FileRecordsSlice::as_file_slice` and `as_file_slice_from_to`, which checks the length
against the file's. -/
instance : FileRecords FileRecordsSlice where
  bytes log := log.bytes
  asFileSlice log start := .ok ⟨start, (log.bytes.length + 2 ^ 64 - start) % 2 ^ 64⟩
  asFileSliceFromTo log start len :=
    if log.bytes.length < len then .error "len is smaller than actual len" else .ok ⟨start, len⟩

/-- A log file slices from the position they are given. -/
structure FileRecords.SlicesAtStart (L : Type) [FileRecords L] : Prop where
  asFileSlice : ∀ (log : L) (start : Nat) (s : FileSlice), FileRecords.asFileSlice log start = .ok s → s.position = start
  asFileSliceFromTo : ∀ (log : L) (start len : Nat) (s : FileSlice),
    FileRecords.asFileSliceFromTo log start len = .ok s → s.position = start

theorem MutFileRecords.slicesAtStart : FileRecords.SlicesAtStart MutFileRecords where
  asFileSlice _ _ _ h := by
    cases h
    rfl
  asFileSliceFromTo _ _ _ _ h := by
    cases h
    rfl

theorem FileRecordsSlice.slicesAtStart : FileRecords.SlicesAtStart FileRecordsSlice where
  asFileSlice _ _ _ h := by
    cases h
    rfl
  asFileSliceFromTo log start len s h := by
    simp only [FileRecords.asFileSliceFromTo] at h
    split at h
    · cases h
    · cases h
      rfl

/-! ### The header scan -/

/-- `BatchPosition`: a batch's header and where it starts. -/
structure BatchPosition where
  batch : Batch FileEmptyRecords
  pos : Nat
deriving DecidableEq, Repr

/-- The loop of `find_offset_position` over a `BatchHeaderStream` set to `pos`: the first
batch whose last offset reaches `offset`, for at most `fuel` batches. Each batch moves the
position by at least its 57-byte header, so the file's length is enough fuel. -/
def scanHeaders (file : List UInt8) (offset : Int64) : Nat → Nat → Except ReadError (Option BatchPosition)
  | 0, _ => .ok none
  | fuel + 1, pos =>
    match readFrom file pos with
    | (.error e, _) => .error e
    | (.ok none, _) => .ok none
    | (.ok (some batchPos), pos') =>
      if offset ≤ batchPos.inner.getLastOffset then .ok (some ⟨batchPos.inner, batchPos.pos⟩)
      else scanHeaders file offset fuel pos'

/-- The scan stops at a whole batch that reaches the offset. -/
theorem scanHeaders_found {pre chunk rest : List UInt8} {base : Int64} {lod : Int32} {offset : Int64}
    (hchunk : WholeBatch chunk base lod) (hreach : offset ≤ base + lod.toInt64) (fuel : Nat) :
    ∃ p, scanHeaders (pre ++ (chunk ++ rest)) offset (fuel + 1) pre.length = .ok (some p) ∧
      p.batch.baseOffset = base ∧ p.batch.header.lastOffsetDelta = lod ∧ p.pos = pre.length := by
  obtain ⟨len, hdr, content, rfl, hlen, hsmall, hlod⟩ := hchunk
  have hread := readFrom_whole pre rest content base len hdr hlen hsmall
  rw [← List.append_assoc] at hread ⊢
  have hlast : offset ≤ (⟨base, len, hdr, 0, ⟨⟩⟩ : Batch FileEmptyRecords).getLastOffset := by
    rw [Batch.getLastOffset, hlod]
    exact hreach
  rw [scanHeaders, hread]
  simp only [hlast, if_true]
  exact ⟨_, rfl, rfl, hlod, rfl⟩

/-- The scan moves past a whole batch that ends before the offset. -/
theorem scanHeaders_skip {pre chunk rest : List UInt8} {base : Int64} {lod : Int32} {offset : Int64}
    (hchunk : WholeBatch chunk base lod) (hbefore : ¬ offset ≤ base + lod.toInt64) (fuel : Nat) :
    scanHeaders (pre ++ (chunk ++ rest)) offset (fuel + 1) pre.length =
      scanHeaders (pre ++ (chunk ++ rest)) offset fuel (pre ++ chunk).length := by
  obtain ⟨len, hdr, content, rfl, hlen, hsmall, hlod⟩ := hchunk
  have hread := readFrom_whole pre rest content base len hdr hlen hsmall
  have hpos : pre.length + batchFileHeaderSize + content.length =
      (pre ++ (fileHead base len hdr ++ content)).length := by
    simp only [List.length_append, length_fileHead]
    omega
  rw [hpos, ← List.append_assoc] at hread
  have hlast : ¬ offset ≤ (⟨base, len, hdr, 0, ⟨⟩⟩ : Batch FileEmptyRecords).getLastOffset := by
    rw [Batch.getLastOffset, hlod]
    exact hbefore
  rw [← List.append_assoc, scanHeaders, hread]
  simp only [hlast, if_false]

/-! ### Batches laid out one after the other -/

/-- Batches `(base offset, last offset delta)` laid one after the other from offset `start`
up to `stop`: each starts where the previous one ended and holds at least one record. -/
def Layout : Int → List (Int64 × Int32) → Int → Prop
  | start, [], stop => stop = start
  | start, b :: bs, stop => b.1.toInt = start ∧ 0 ≤ b.2.toInt ∧ Layout (start + b.2.toInt + 1) bs stop

theorem Layout.le : ∀ {start stop : Int} {bs : List (Int64 × Int32)}, Layout start bs stop → start ≤ stop
  | _, _, [], h => by simp only [Layout] at h; omega
  | _, _, _ :: _, ⟨_, hlod, hrest⟩ => by have := Layout.le hrest; omega

/-- Every batch lies between the bounds of the layout. -/
theorem Layout.mem : ∀ {start stop : Int} {bs : List (Int64 × Int32)}, Layout start bs stop →
    ∀ b ∈ bs, start ≤ b.1.toInt ∧ 0 ≤ b.2.toInt ∧ b.1.toInt + b.2.toInt < stop
  | _, _, [], _ => by simp
  | _, _, _ :: _, ⟨hbase, hlod, hrest⟩ => by
    intro b hb
    have hle := Layout.le hrest
    rcases List.mem_cons.mp hb with rfl | hb
    · exact ⟨hbase.ge, hlod, by omega⟩
    · obtain ⟨h1, h2, h3⟩ := Layout.mem hrest b hb
      exact ⟨by omega, h2, h3⟩

/-- The batches from the `k`-th on are laid out from its base. -/
theorem Layout.drop : ∀ {start stop : Int} {bs : List (Int64 × Int32)}, Layout start bs stop →
    ∀ (k : Nat) (hk : k < bs.length), Layout bs[k].1.toInt (bs.drop k) stop
  | _, _, [], _, _, hk => absurd hk (by simp)
  | start, _, b :: bs, h, 0, _ => by
    have hbase : b.1.toInt = start := h.1
    simpa [hbase] using h
  | _, _, _ :: bs, ⟨_, _, hrest⟩, k + 1, hk => by
    simpa using Layout.drop hrest k (by simpa using hk)

/-- Each batch of a layout ends before any later one starts. -/
theorem Layout.end_lt_of_lt : ∀ {start stop : Int} {bs : List (Int64 × Int32)}, Layout start bs stop →
    ∀ {i k : Nat} (_ : i < k) (hk : k < bs.length), bs[i].1.toInt + bs[i].2.toInt < bs[k].1.toInt
  | _, _, [], _, _, _, _, hk => absurd hk (by simp)
  | _, _, _ :: _, _, _, 0, hik, _ => absurd hik (Nat.not_lt_zero _)
  | _, _, _ :: bs, ⟨hbase, _, hrest⟩, 0, k + 1, _, hk => by
    -- the later batch lies in the rest, which starts where this one ends
    have hk' : k < bs.length := by simpa using hk
    have := (hrest.mem bs[k] (List.getElem_mem hk')).1
    simp only [List.getElem_cons_zero, List.getElem_cons_succ]
    omega
  | _, _, _ :: _, ⟨_, _, hrest⟩, i + 1, k + 1, hik, hk => by
    simpa using Layout.end_lt_of_lt hrest (Nat.lt_of_succ_lt_succ hik) (by simpa using hk)

/-- The only batch of a layout that holds a batch's base offset is that batch. -/
theorem Layout.eq_of_holds_base {start stop : Int} {bs : List (Int64 × Int32)} (h : Layout start bs stop)
    {j k : Nat} (hj : j < bs.length) (hk : k < bs.length) (hlo : bs[j].1.toInt ≤ bs[k].1.toInt)
    (hhi : bs[k].1.toInt ≤ bs[j].1.toInt + bs[j].2.toInt) : j = k := by
  rcases Nat.lt_trichotomy j k with hjk | hjk | hjk
  · have := h.end_lt_of_lt hjk hk
    omega
  · exact hjk
  · have := h.end_lt_of_lt hjk hj
    have := (h.mem bs[k] (List.getElem_mem hk)).2.1
    omega

/-- The last offset of a batch in a layout below `2 ^ 63` does not wrap. -/
theorem Layout.toInt_lastOffset {start stop : Int} {bs : List (Int64 × Int32)} (h : Layout start bs stop)
    (hstop : stop < 2 ^ 63) {b : Int64 × Int32} (hb : b ∈ bs) :
    (b.1 + b.2.toInt64).toInt = b.1.toInt + b.2.toInt := by
  obtain ⟨-, hlod, hlt⟩ := h.mem b hb
  have hmin := Int64.le_toInt b.1
  rw [Bits.toInt_add_of_range] <;> rw [Int32.toInt_toInt64] <;> omega

/-- The index entries that point at batch starts: for each batch, its offset relative to
`base` and the position of its first byte. -/
def marks (base : Int) : Nat → List (List UInt8) → List (Int64 × Int32) → List Entry
  | pos, c :: cs, b :: bs => ((b.1.toInt - base).toNat, pos) :: marks base (pos + c.length) cs bs
  | _, _, _ => []

/-- A mark is the relative offset and the position of one of the batches. -/
theorem mem_marks {base : Int} {e : Entry} : ∀ {pos : Nat} {cs : List (List UInt8)} {bs : List (Int64 × Int32)},
    e ∈ marks base pos cs bs → ∃ k, ∃ hk : k < bs.length, k < cs.length ∧
      e = ((bs[k].1.toInt - base).toNat, pos + (cs.take k).flatten.length)
  | _, [], _, h => by simp [marks] at h
  | _, _ :: _, [], h => by simp [marks] at h
  | pos, c :: cs, b :: bs, h => by
    rcases List.mem_cons.mp h with rfl | h
    · exact ⟨0, by simp, by simp, by simp⟩
    · obtain ⟨k, hk, hkc, rfl⟩ := mem_marks h
      refine ⟨k + 1, by simpa using hk, by simpa using hkc, ?_⟩
      simp [Nat.add_assoc]

/-- The mark of a batch added after the others. -/
theorem marks_append {base : Int} (c : List UInt8) (b : Int64 × Int32) : ∀ {pos : Nat}
    {cs : List (List UInt8)} {bs : List (Int64 × Int32)}, cs.length = bs.length →
    marks base pos (cs ++ [c]) (bs ++ [b]) =
      marks base pos cs bs ++ [((b.1.toInt - base).toNat, pos + cs.flatten.length)]
  | _, [], [], _ => by simp [marks]
  | _, [], _ :: _, h => absurd h (by simp)
  | _, _ :: _, [], h => absurd h (by simp)
  | pos, c' :: cs, b' :: bs, h => by
    simp only [List.cons_append, marks, List.flatten_cons, List.length_append, List.cons.injEq, true_and]
    rw [marks_append c b (by simpa using h), Nat.add_assoc]

/-- Marks of batches laid out at or above `base` grow strictly. -/
theorem marks_sorted {base : Int} : ∀ {start stop : Int} {pos : Nat} {cs : List (List UInt8)}
    {bs : List (Int64 × Int32)}, Layout start bs stop → base ≤ start →
    (marks base pos cs bs).Pairwise fun e e' => e.1 < e'.1
  | _, _, _, [], _, _, _ => by simp [marks]
  | _, _, _, _ :: _, [], _, _ => by simp [marks]
  | start, stop, pos, c :: cs, b :: bs, ⟨hbase, hlod, hrest⟩, hle => by
    rw [marks, List.pairwise_cons]
    refine ⟨fun e he => ?_, marks_sorted hrest (by omega)⟩
    -- every later batch starts past this one
    obtain ⟨k, hk, -, rfl⟩ := mem_marks he
    have := (hrest.mem bs[k] (List.getElem_mem hk)).1
    omega


/-- **The scan over batches laid out one after the other** stops at the batch that holds
the offset, at the position after the batches before it. Induction on the batches, from
one whose base is not above the offset. -/
theorem scanHeaders_layout {o : Int64} {rest : List UInt8} :
    ∀ {chunks : List (List UInt8)} {batches : List (Int64 × Int32)},
      List.Forall₂ (fun c b => WholeBatch c b.1 b.2) chunks batches →
      ∀ {start stop : Int}, Layout start batches stop → stop < 2 ^ 63 → start ≤ o.toInt → o.toInt < stop →
      ∀ (pre : List UInt8) (fuel : Nat), chunks.length < fuel →
        ∃ j, ∃ hj : j < batches.length, ∃ p,
          scanHeaders (pre ++ (chunks.flatten ++ rest)) o fuel pre.length = .ok (some p) ∧
          p.batch.baseOffset = batches[j].1 ∧ p.batch.header.lastOffsetDelta = batches[j].2 ∧
          batches[j].1.toInt ≤ o.toInt ∧ o.toInt ≤ batches[j].1.toInt + batches[j].2.toInt ∧
          p.pos = pre.length + (chunks.take j).flatten.length := by
  intro chunks batches h
  induction h with
  | nil =>
    intro start stop hlay _ hstart hstop
    simp only [Layout] at hlay
    omega
  | @cons c b cs bs hcb _ ih =>
    intro start stop hlay hstop63 hstart hstop pre fuel hfuel
    obtain ⟨fuel, rfl⟩ : ∃ f, fuel = f + 1 := ⟨fuel - 1, by simp at hfuel; omega⟩
    have hlast := hlay.toInt_lastOffset hstop63 List.mem_cons_self
    obtain ⟨hbase, hlod, hrest⟩ := hlay
    by_cases hreach : o.toInt ≤ start + b.2.toInt
    · -- the batch in front holds the offset
      have hle : o ≤ b.1 + b.2.toInt64 := by
        rw [Int64.le_iff_toInt_le, hlast]
        omega
      obtain ⟨p, hp, hpb, hpl, hpos⟩ := @scanHeaders_found pre c (cs.flatten ++ rest) b.1 b.2 o hcb hle fuel
      refine ⟨0, by simp, p, ?_, hpb, hpl, by simp; omega, by simp; omega, by simp [hpos]⟩
      rw [List.flatten_cons, List.append_assoc]
      exact hp
    · -- it ends before the offset: skip it
      have hnle : ¬ o ≤ b.1 + b.2.toInt64 := by
        rw [Int64.le_iff_toInt_le, hlast]
        omega
      have hskip := @scanHeaders_skip pre c (cs.flatten ++ rest) b.1 b.2 o hcb hnle fuel
      obtain ⟨j, hj, p, hp, hpb, hpl, hlo, hhi, hpos⟩ :=
        ih hrest hstop63 (by omega) hstop (pre ++ c) fuel (by simp at hfuel; omega)
      refine ⟨j + 1, by simpa using hj, p, ?_, by simpa using hpb, by simpa using hpl, by simpa using hlo,
        by simpa using hhi, ?_⟩
      · rw [List.flatten_cons, List.append_assoc, hskip, ← List.append_assoc]
        exact hp
      · rw [hpos]
        simp only [List.length_append, List.take_succ_cons, List.flatten_cons]
        omega

/-! ### Segments -/

/-- `Segment<I, L>`: a log file, its index, and the segment's offsets. -/
structure Segment (I L : Type) where
  msgLog : L
  index : I
  baseOffset : Int64
  endOffset : Int64

/-- `ErrorCode`, as `records_slice` returns it. The messages keep the source's text and leave
out the debug dump of the error they wrap. -/
inductive ErrorCode
  | other (msg : String)
deriving DecidableEq, Repr

section Lookup

variable {I L : Type} [Index I] [FileRecords L]

/-- `Segment::find_offset_position`: nothing outside `[base_offset, end_offset)`; otherwise the
scan of batch headers from the position of the index entry for the relative offset, or from
the start of the file. -/
def Segment.findOffsetPosition (seg : Segment I L) (offset : Int64) : Except ReadError (Option BatchPosition) :=
  if offset < seg.baseOffset then .ok none
  else if seg.endOffset ≤ offset then .ok none
  else
    -- `(offset - self.base_offset) as Size`
    let delta := (offset - seg.baseOffset).toUInt64.toUInt32.toNat
    let position := match Index.findOffset seg.index delta with
      | none => 0
      | some entry => entry.2
    let file := FileRecords.bytes seg.msgLog
    scanHeaders file offset (file.length + 1) position

/-- `Segment::records_slice`: the file from the batch holding `start_offset`, to the end or,
when the high watermark `max_offset` lies inside the segment, to the batch holding it. -/
def Segment.recordsSlice (seg : Segment I L) (startOffset : Int64) (maxOffsetOpt : Option Int64) :
    Except ErrorCode (Option FileSlice) :=
  match seg.findOffsetPosition startOffset with
  | .error _ => .error (.other "offset error")
  | .ok none => .ok none
  | .ok (some startPos) =>
    let pos := startPos.pos
    match maxOffsetOpt with
    | some maxOffset =>
      let effectiveMaxOffset := min maxOffset seg.endOffset
      if effectiveMaxOffset = seg.endOffset then
        ((FileRecords.asFileSlice seg.msgLog pos).mapError fun _ => .other "msg as file slice").map some
      else
        match seg.findOffsetPosition effectiveMaxOffset with
        | .error _ => .error (.other "offset error")
        | .ok (some endPos) =>
          -- `end_pos.pos - pos` on `u32`
          ((FileRecords.asFileSliceFromTo seg.msgLog pos ((endPos.pos + 2 ^ 32 - pos) % 2 ^ 32)).mapError
            fun _ => .other "msg slice").map some
        | .ok none => .error (.other ("max offset position: " ++ toString effectiveMaxOffset ++ " not found"))
    | none => ((FileRecords.asFileSlice seg.msgLog pos).mapError fun _ => .other "msg slice error").map some

/-- A slice that `?` let through is the one the file returned. -/
theorem eq_ok_of_map_some {ε ε' α : Type} {x : Except ε α} {f : ε → ε'} {a : α}
    (h : ((x.mapError f).map some) = .ok (some a)) : x = .ok a := by
  cases x with
  | error e => cases h
  | ok b =>
    simp only [Except.mapError, Except.map, Except.ok.injEq, Option.some.injEq] at h
    rw [h]

/-- **A slice starts at the batch that holds its start offset**: whatever `records_slice`
returns begins where `find_offset_position` found that batch. -/
theorem Segment.recordsSlice_position (hL : FileRecords.SlicesAtStart L) {seg : Segment I L}
    {startOffset : Int64} {maxOffsetOpt : Option Int64} {slice : FileSlice}
    (h : seg.recordsSlice startOffset maxOffsetOpt = .ok (some slice)) :
    ∃ p, seg.findOffsetPosition startOffset = .ok (some p) ∧ slice.position = p.pos := by
  unfold Segment.recordsSlice at h
  split at h
  · cases h
  · cases h
  · rename_i startPos hstart
    refine ⟨startPos, hstart, ?_⟩
    rcases maxOffsetOpt with _ | maxOffset
    · -- to the end of the file
      exact hL.asFileSlice _ _ _ (eq_ok_of_map_some h)
    · dsimp only at h
      split at h
      · -- the high watermark is at or past the segment's end
        exact hL.asFileSlice _ _ _ (eq_ok_of_map_some h)
      · -- up to the batch holding the high watermark
        split at h
        · cases h
        · exact hL.asFileSliceFromTo _ _ _ _ (eq_ok_of_map_some h)
        · cases h

/-- The index points at batch starts: for a relative offset, `find_offset` gives the start of
the file, or the mark of a batch at or below that offset. -/
def PointsAtBatches (find : Nat → Option Entry) (base : Int) (chunks : List (List UInt8))
    (batches : List (Int64 × Int32)) : Prop :=
  ∀ d e, find d = some e → e.2 = 0 ∨ (e.1 ≤ d ∧ e ∈ marks base 0 chunks batches)

/-- The relative offset of an offset in the segment, as `u32`, is at most the offset's
distance from the base. -/
theorem delta_le {o base : Int64} (hbase : 0 ≤ base.toInt) (hle : base.toInt ≤ o.toInt) :
    ((o - base).toUInt64.toUInt32.toNat : Int) ≤ o.toInt - base.toInt := by
  have hlt := Int64.toInt_lt o
  have hsub : (o - base).toInt = o.toInt - base.toInt := Bits.toInt_sub_of_range (by omega) (by omega)
  have hnat := Bits.toInt_eq_toNat_of_nonneg (x := o - base) (by omega)
  rw [Bits.toNat_toUInt32_toUInt64]
  have := Nat.mod_le (o - base).toBitVec.toNat (2 ^ 32)
  omega

omit [FileRecords L] in
/-- Where the scan of `find_offset_position` starts: at the first byte of a batch whose base
is not above the offset. -/
theorem Segment.scanStart {seg : Segment I L} {chunks : List (List UInt8)} {batches : List (Int64 × Int32)}
    (hwhole : List.Forall₂ (fun c b => WholeBatch c b.1 b.2) chunks batches)
    (hlayout : Layout seg.baseOffset.toInt batches seg.endOffset.toInt) (hbase : 0 ≤ seg.baseOffset.toInt)
    (hindex : PointsAtBatches (Index.findOffset seg.index) seg.baseOffset.toInt chunks batches)
    {o : Int64} (hlo : seg.baseOffset.toInt ≤ o.toInt) (hhi : o.toInt < seg.endOffset.toInt) :
    ∃ k, ∃ hk : k < batches.length, batches[k].1.toInt ≤ o.toInt ∧
      (match Index.findOffset seg.index (o - seg.baseOffset).toUInt64.toUInt32.toNat with
        | none => 0
        | some entry => entry.2) = (chunks.take k).flatten.length := by
  have hlen := hwhole.length_eq
  -- the offset lies in the segment, so there is a first batch, at the base
  have hne : 0 < batches.length := by
    rcases batches with _ | ⟨b, bs⟩
    · simp only [Layout] at hlayout
      omega
    · simp
  have hfirst : batches[0].1.toInt ≤ o.toInt := by
    have := (hlayout.mem batches[0] (List.getElem_mem hne)).1
    have hb : batches[0].1.toInt = seg.baseOffset.toInt := by
      rcases batches with _ | ⟨b, bs⟩
      · simp at hne
      · exact hlayout.1
    omega
  have hzero : (chunks.take 0).flatten.length = 0 := by simp
  split
  · exact ⟨0, hne, hfirst, hzero.symm⟩
  · rename_i e he
    rcases hindex _ e he with hpos | ⟨hle, hmem⟩
    · exact ⟨0, hne, hfirst, by rw [hpos, hzero]⟩
    · -- a mark at or below the relative offset: its batch starts at or below the offset
      obtain ⟨k, hk, -, rfl⟩ := mem_marks hmem
      have hdelta := delta_le (o := o) hbase hlo
      have hk0 := (hlayout.mem batches[k] (List.getElem_mem hk)).1
      refine ⟨k, hk, ?_, by simp⟩
      simp only at hle
      omega

/-- **`find_offset_position` over batches laid out one after the other.** With an index that
points at batch starts, it returns nothing outside the segment and, inside, the batch that
holds the offset, at the position of its first byte. -/
theorem Segment.findOffsetPosition_layout {seg : Segment I L} {chunks : List (List UInt8)}
    {batches : List (Int64 × Int32)} (hfile : FileRecords.bytes seg.msgLog = chunks.flatten)
    (hwhole : List.Forall₂ (fun c b => WholeBatch c b.1 b.2) chunks batches)
    (hlayout : Layout seg.baseOffset.toInt batches seg.endOffset.toInt) (hbase : 0 ≤ seg.baseOffset.toInt)
    (hindex : PointsAtBatches (Index.findOffset seg.index) seg.baseOffset.toInt chunks batches) (o : Int64) :
    ∃ r, seg.findOffsetPosition o = .ok r ∧ (r.isSome ↔ seg.baseOffset ≤ o ∧ o < seg.endOffset) ∧
      ∀ p, r = some p → ∃ j, ∃ hj : j < batches.length, p.batch.baseOffset = batches[j].1 ∧
        p.batch.header.lastOffsetDelta = batches[j].2 ∧ batches[j].1.toInt ≤ o.toInt ∧
        o.toInt ≤ batches[j].1.toInt + batches[j].2.toInt ∧ p.pos = (chunks.take j).flatten.length := by
  unfold Segment.findOffsetPosition
  by_cases hlo : o < seg.baseOffset
  · -- below the base
    refine ⟨none, by simp [hlo], ?_, by simp⟩
    simp only [Option.isSome_none, Bool.false_eq_true, false_iff, not_and]
    intro hle
    exact absurd (Std.lt_of_lt_of_le hlo hle) (Std.lt_irrefl)
  by_cases hhi : seg.endOffset ≤ o
  · -- at or past the end
    refine ⟨none, by simp [hlo, hhi], ?_, by simp⟩
    simp only [Option.isSome_none, Bool.false_eq_true, false_iff, not_and]
    intro _ hlt
    exact absurd (Std.lt_of_lt_of_le hlt hhi) (Std.lt_irrefl)
  -- inside the segment: scan from the batch the index points at
  rw [if_neg hlo, if_neg hhi]
  have hlo' : seg.baseOffset.toInt ≤ o.toInt := by
    rw [Int64.lt_iff_toInt_lt] at hlo
    omega
  have hhi' : o.toInt < seg.endOffset.toInt := by
    rw [Int64.le_iff_toInt_le] at hhi
    omega
  obtain ⟨k, hk, hko, hstart⟩ := seg.scanStart hwhole hlayout hbase hindex hlo' hhi'
  have hfuel : (chunks.drop k).length < (FileRecords.bytes seg.msgLog).length + 1 := by
    have := WholeBatch.length_le_flatten hwhole
    rw [hfile, List.length_drop]
    omega
  have hsplit : FileRecords.bytes seg.msgLog = (chunks.take k).flatten ++ ((chunks.drop k).flatten ++ []) := by
    rw [hfile, List.append_nil, ← List.flatten_append, List.take_append_drop]
  obtain ⟨j, hj, p, hp, hpb, hpl, hpo, hop, hpos⟩ :=
    scanHeaders_layout (List.forall₂_drop k hwhole) (hlayout.drop k hk) (Int64.toInt_lt _) hko hhi'
      (chunks.take k).flatten _ hfuel
  refine ⟨some p, ?_, by simp [Std.not_lt.mp hlo, Std.not_le.mp hhi], ?_⟩
  · dsimp only
    rw [hstart]
    rw [← hsplit] at hp
    exact hp
  · intro p' hp'
    cases hp'
    have hjk : k + j < batches.length := by
      rw [List.length_drop] at hj
      omega
    refine ⟨k + j, hjk, ?_, ?_, ?_, ?_, ?_⟩ <;> simp only [List.getElem_drop] at hpb hpl hpo hop
    · exact hpb
    · exact hpl
    · exact hpo
    · exact hop
    · rw [hpos, List.take_add, List.flatten_append, List.length_append]

end Lookup

end Fluvio.Storage
