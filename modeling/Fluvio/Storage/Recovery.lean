import Fluvio.Storage.Validator
import Fluvio.Storage.Replica

/-!
Crash recovery of the active segment (`validator.rs`, `batch.rs`, `segment.rs`).

A crash during an append leaves the log file with the batches written before it and
then a torn write: fewer bytes than a batch's preamble and header, or a strict prefix
of a batch's encoding (`TornWrite`). Reopening the segment reads the whole batches
back one by one (`validateStream_wholes`), meets the end of the file or a
`BatchHeaderError` in the torn write (`readFrom_torn`), truncates the file after the
last whole batch and sets the end offset one past its last offset
(`MutableSegment.reopen_after_torn_write`).

This rests on every batch's encoding being shorter than `2 ^ 31` bytes: `batch_len`
is an `i32`, and a longer batch goes to the file with a negative length, which the
reader takes for a cut and truncates away (`hugeBatch_lost_on_reopen`).
-/

namespace Fluvio.Storage

open Fluvio.Protocol Cursor

/-- The 57 bytes of a batch's preamble and header. -/
def fileHead (base : Int64) (len : Int32) (h : BatchHeader) : List UInt8 :=
  i64Width.put base ++ i32Width.put len ++ h.bytes

@[simp] theorem length_fileHead (base : Int64) (len : Int32) (h : BatchHeader) :
    (fileHead base len h).length = batchFileHeaderSize := by
  simp [fileHead, batchFileHeaderSize, batchPreambleSize, i64Width, i32Width]
  omega

theorem decodeFromFileBuf_apply (base : Int64) (len : Int32) (h : BatchHeader) (rest : List UInt8) :
    decodeFromFileBuf (fileHead base len h ++ rest) = .ok (base, len, h) rest := by
  have hbase : (Decoder.decode : Decode Int64) (i64Width.put base ++ (i32Width.put len ++ (h.bytes ++ rest))) =
      .ok base (i32Width.put len ++ (h.bytes ++ rest)) := FixedWidth.get_put_apply i64Width _ _ _
  have hlen : (Decoder.decode : Decode Int32) (i32Width.put len ++ (h.bytes ++ rest)) =
      .ok len (h.bytes ++ rest) := FixedWidth.get_put_apply i32Width _ _ _
  simp only [fileHead, List.append_assoc]
  rw [decodeFromFileBuf, bind_ok hbase, bind_ok hlen, bind_ok (BatchHeader.decode_bytes_apply h rest)]
  rfl

theorem readBytes_of_pos {file : List UInt8} {pos len : Nat} (hlen : 0 < len) (hpos : pos < file.length) :
    readBytes file pos len = (some ((file.drop pos).take len), pos + len) := by
  simp [readBytes, Nat.pos_iff_ne_zero.mp hlen, Nat.not_le.mpr hpos]

theorem readFrom_end (file : List UInt8) : readFrom file file.length = (.ok none, file.length) := by
  simp [readFrom, readBytes, batchFileHeaderSize, batchPreambleSize]

/-- The header read of `read_from`, at a batch's first byte. -/
theorem readBytes_fileHead (pre rest : List UInt8) (base : Int64) (len : Int32) (h : BatchHeader) :
    readBytes (pre ++ (fileHead base len h ++ rest)) pre.length batchFileHeaderSize =
      (some (fileHead base len h), pre.length + batchFileHeaderSize) := by
  have hpos : pre.length < (pre ++ (fileHead base len h ++ rest)).length := by
    simp only [List.length_append, length_fileHead, batchFileHeaderSize, batchPreambleSize]
    omega
  rw [readBytes_of_pos (by decide) hpos, List.drop_left, ← length_fileHead base len h, List.take_left]

theorem readFrom_whole (pre rest content : List UInt8) (base : Int64) (len : Int32) (h : BatchHeader)
    (hlen : Int32.asUsize len = batchHeaderSize + content.length) (hsmall : content.length < 2 ^ 32) :
    readFrom (pre ++ (fileHead base len h ++ content ++ rest)) pre.length =
      (.ok (some ⟨⟨base, len, h, 0, ⟨⟩⟩, pre.length⟩), pre.length + batchFileHeaderSize + content.length) := by
  set file := pre ++ (fileHead base len h ++ content ++ rest) with hfile
  have hhead : readBytes file pre.length batchFileHeaderSize =
      (some (fileHead base len h), pre.length + batchFileHeaderSize) := by
    rw [hfile, List.append_assoc (fileHead base len h)]
    exact readBytes_fileHead pre (content ++ rest) base len h
  have hdecode := decodeFromFileBuf_apply base len h []
  rw [List.append_nil] at hdecode
  have hcontent : readBytes file (pre.length + batchFileHeaderSize) content.length =
      (some content, pre.length + batchFileHeaderSize + content.length) := by
    cases content with
    | nil => simp [readBytes]
    | cons c cs =>
      have hdrop : file.drop (pre.length + batchFileHeaderSize) = (c :: cs) ++ rest := by
        rw [hfile, ← length_fileHead base len h, ← List.length_append, List.append_assoc,
          ← List.append_assoc pre, List.drop_left]
      rw [readBytes_of_pos (by simp) (by simp [hfile]), hdrop, List.take_left]
  have hnotlt : ¬ Int32.asUsize len < batchHeaderSize := by omega
  have hcl : Int32.asUsize len - batchHeaderSize = content.length := by omega
  simp only [readFrom, hhead, length_fileHead, lt_irrefl, if_false, hdecode, hnotlt, hcl,
    Nat.mod_eq_of_lt hsmall, hcontent]

theorem readFrom_short {pre t : List UInt8} (hne : t ≠ []) (hshort : t.length < batchFileHeaderSize) :
    ∃ e p, readFrom (pre ++ t) pre.length = (.error (.header e), p) := by
  have hpos : pre.length < (pre ++ t).length := by
    simp only [List.length_append]
    have := List.length_pos_iff.mpr hne
    omega
  have hread : readBytes (pre ++ t) pre.length batchFileHeaderSize =
      (some t, pre.length + batchFileHeaderSize) := by
    rw [readBytes_of_pos (by decide) hpos, List.drop_left, List.take_of_length_le hshort.le]
  simp only [readFrom, hread, hshort, if_true]
  exact ⟨_, _, rfl⟩

theorem readFrom_cut {pre t content : List UInt8} {base : Int64} {len : Int32} {h : BatchHeader}
    (hlen : Int32.asUsize len = batchHeaderSize + content.length) (hsmall : content.length < 2 ^ 32)
    (hcut : t <+: content) (hshort : t.length < content.length) :
    ∃ e p, readFrom (pre ++ (fileHead base len h ++ t)) pre.length = (.error (.header e), p) := by
  have hhead := readBytes_fileHead pre t base len h
  have hdecode := decodeFromFileBuf_apply base len h []
  rw [List.append_nil] at hdecode
  have hnotlt : ¬ Int32.asUsize len < batchHeaderSize := by omega
  have hcl : Int32.asUsize len - batchHeaderSize = content.length := by omega
  have hfile : (pre ++ (fileHead base len h ++ t)).length = pre.length + batchFileHeaderSize + t.length := by
    simp only [List.length_append, length_fileHead]
    omega
  -- the content read finds only the bytes of the cut
  cases t with
  | nil =>
    have hread : readBytes (pre ++ (fileHead base len h ++ [])) (pre.length + batchFileHeaderSize)
        content.length = (none, pre.length + batchFileHeaderSize) := by
      simp only [List.length_nil] at hshort
      simp [readBytes, Nat.pos_iff_ne_zero.mp hshort]
    simp only [readFrom, hhead, length_fileHead, lt_irrefl, if_false, hdecode, hnotlt, hcl,
      Nat.mod_eq_of_lt hsmall, hread]
    exact ⟨_, _, rfl⟩
  | cons c cs =>
    have hdrop : (pre ++ (fileHead base len h ++ c :: cs)).drop (pre.length + batchFileHeaderSize) = c :: cs := by
      rw [← length_fileHead base len h, ← List.length_append, ← List.append_assoc, List.drop_left]
    have hread : readBytes (pre ++ (fileHead base len h ++ c :: cs)) (pre.length + batchFileHeaderSize)
        content.length = (some (c :: cs), pre.length + batchFileHeaderSize + content.length) := by
      rw [readBytes_of_pos (by omega) (by rw [hfile]; simp), hdrop,
        List.take_of_length_le hshort.le]
    simp only [readFrom, hhead, length_fileHead, lt_irrefl, if_false, hdecode, hnotlt, hcl,
      Nat.mod_eq_of_lt hsmall, hread, hshort, if_true]
    exact ⟨_, _, rfl⟩

/-- A read never returns more bytes than it asks for. -/
theorem readBytes_length_le {file bytes : List UInt8} {pos len p : Nat}
    (h : readBytes file pos len = (some bytes, p)) : bytes.length ≤ len := by
  unfold readBytes at h
  split at h
  · simp only [Prod.mk.injEq, Option.some.injEq] at h
    simp [← h.1]
  · split at h
    · simp at h
    · simp only [Prod.mk.injEq, Option.some.injEq] at h
      simp [← h.1]

/-- **A negative `batch_len` reads as a cut**: `read_from` asks for the content's length
modulo `2 ^ 32`, which is always less than the `usize` it compares the bytes read with. -/
theorem readFrom_negLen {pre rest : List UInt8} {base : Int64} {len : Int32} {h : BatchHeader}
    (hneg : len.toInt < 0) :
    ∃ e p, readFrom (pre ++ (fileHead base len h ++ rest)) pre.length = (.error (.header e), p) := by
  have hhead := readBytes_fileHead pre rest base len h
  have hdecode := decodeFromFileBuf_apply base len h []
  rw [List.append_nil] at hdecode
  have hbig : batchHeaderSize + 2 ^ 32 ≤ Int32.asUsize len := by
    have := Int32.le_toInt len
    rw [Int32.asUsize_of_neg hneg, batchHeaderSize]
    omega
  have hnotlt : ¬ Int32.asUsize len < batchHeaderSize := by omega
  simp only [readFrom, hhead, length_fileHead, lt_irrefl, if_false, hdecode, hnotlt]
  rcases hread : readBytes (pre ++ (fileHead base len h ++ rest)) (pre.length + batchFileHeaderSize)
      ((Int32.asUsize len - batchHeaderSize) % 2 ^ 32) with ⟨_ | content, p⟩
  · exact ⟨_, _, rfl⟩
  · have hle := readBytes_length_le hread
    have hmod := Nat.mod_lt (Int32.asUsize len - batchHeaderSize) (by decide : 0 < 2 ^ 32)
    have hshort : content.length < Int32.asUsize len - batchHeaderSize := by omega
    simp only [hshort, if_true]
    exact ⟨_, _, rfl⟩

/-- A chunk of a log file that `read_from` reads as one whole batch with base `base` and last
offset delta `lod`. -/
def WholeBatch (chunk : List UInt8) (base : Int64) (lod : Int32) : Prop :=
  ∃ len hdr content, chunk = fileHead base len hdr ++ content ∧
    Int32.asUsize len = batchHeaderSize + content.length ∧ content.length < 2 ^ 32 ∧
    hdr.lastOffsetDelta = lod

section Layout

variable {R : Type} [Crc32c] [Encoder R]

/-- A batch's encoding as the file reader sees it: its preamble and header, with
`batch_len` the `i32` of the header's and the content's length, then the content. -/
theorem Batch.encode_layout {b : Batch R} {bytes : List UInt8} (hsize : SizeAgreesAt b.records)
    (henc : Encoder.encode b = some bytes) :
    ∃ hdr content, bytes = fileHead b.baseOffset (Int32.ofNat (batchHeaderSize + content.length)) hdr ++ content ∧
      hdr.lastOffsetDelta = b.header.lastOffsetDelta := by
  cases hr : Encoder.encode b.records with
  | none =>
    have hws : Encoder.writeSize b.records = none := by rw [hsize, hr]; rfl
    simp [Encoder.encode, Batch.encode, Batch.calcBatchLen, hws] at henc
  | some rb =>
    obtain ⟨crc, he⟩ := Batch.encode_eq hsize hr
    have hbytes : bytes = b.headBytes crc rb.length ++ rb := by
      rw [← Option.some.injEq, ← he]
      exact henc.symm
    refine ⟨{ b.header with crc := crc }, b.schemaBytes ++ rb, ?_, rfl⟩
    have hlen : batchHeaderSize + (b.schemaBytes.length + rb.length) =
        batchHeaderSize + rb.length + b.schemaBytes.length := by omega
    rw [hbytes, Batch.headBytes, fileHead, List.append_assoc, List.length_append, hlen]

/-- Below `2 ^ 31` bytes, `batch_len` says how many bytes follow the header. -/
theorem Batch.encode_fileHead {b : Batch R} {bytes : List UInt8} (hsize : SizeAgreesAt b.records)
    (henc : Encoder.encode b = some bytes) (hfit : bytes.length < 2 ^ 31) :
    ∃ len hdr content, bytes = fileHead b.baseOffset len hdr ++ content ∧
      Int32.asUsize len = batchHeaderSize + content.length ∧
      hdr.lastOffsetDelta = b.header.lastOffsetDelta := by
  obtain ⟨hdr, content, rfl, hlod⟩ := Batch.encode_layout hsize henc
  have hlen : batchHeaderSize + content.length < 2 ^ 31 := by
    simp only [List.length_append, length_fileHead, batchFileHeaderSize, batchPreambleSize] at hfit ⊢
    omega
  exact ⟨_, hdr, content, rfl, Int32.asUsize_ofNat hlen, hlod⟩

/-- A batch shorter than `2 ^ 31` bytes is one whole batch for the reader. -/
theorem Batch.wholeBatch_of_encode {b : Batch R} {bytes : List UInt8} (hsize : SizeAgreesAt b.records)
    (henc : Encoder.encode b = some bytes) (hfit : bytes.length < 2 ^ 31) :
    WholeBatch bytes b.baseOffset b.header.lastOffsetDelta := by
  obtain ⟨len, hdr, content, rfl, hlen, hlod⟩ := Batch.encode_fileHead hsize henc hfit
  have hsmall : content.length < 2 ^ 32 := by
    simp only [List.length_append, length_fileHead] at hfit
    omega
  exact ⟨len, hdr, content, rfl, hlen, hsmall, hlod⟩

/-- Where a batch is placed does not change how long its encoding is. -/
theorem Batch.encode_length_withBase {b : Batch R} (hsize : SizeAgreesAt b.records) (offset : Int64) :
    (Encoder.encode ({ b with baseOffset := offset } : Batch R)).map List.length =
      (Encoder.encode b).map List.length := by
  rw [Batch.encode_length_eq (b := { b with baseOffset := offset }) hsize, Batch.encode_length_eq hsize]
  rfl

end Layout

section Torn

variable (R : Type) [Crc32c] [Encoder R]

/-- What a crash during an append can leave after the last whole batch: fewer bytes than a
batch's preamble and header, or a strict prefix of a batch's encoding. -/
def TornWrite (t : List UInt8) : Prop :=
  t.length < batchFileHeaderSize ∨
    ∃ (b : Batch R) (bytes : List UInt8), SizeAgreesAt b.records ∧ Encoder.encode b = some bytes ∧
      bytes.length < 2 ^ 31 ∧ t <+: bytes ∧ t.length < bytes.length

variable {R}

/-- **`read_from` finds the end of the file or a `BatchHeaderError` in a torn write.** -/
theorem readFrom_torn {pre t : List UInt8} (ht : TornWrite R t) :
    t = [] ∨ ∃ e p, readFrom (pre ++ t) pre.length = (.error (.header e), p) := by
  by_cases hnil : t = []
  · exact .inl hnil
  right
  by_cases hshort : t.length < batchFileHeaderSize
  · exact readFrom_short hnil hshort
  rcases ht with hlt | ⟨b, bytes, hsize, henc, hfit, hcut, hlt⟩
  · exact absurd hlt hshort
  obtain ⟨len, hdr, content, rfl, hlen, -⟩ := Batch.encode_fileHead hsize henc hfit
  -- the cut falls past the header: what it keeps of the content is a strict prefix of it
  obtain ⟨u, hu⟩ := hcut
  have hhead : t = fileHead b.baseOffset len hdr ++ t.drop batchFileHeaderSize := by
    have htake := congrArg (List.take batchFileHeaderSize) hu
    rw [List.take_append_of_le_length (by omega), ← length_fileHead b.baseOffset len hdr, List.take_left] at htake
    rw [← htake, length_fileHead, List.take_append_drop]
  have hcontent : t.drop batchFileHeaderSize <+: content := by
    refine ⟨u, ?_⟩
    have hdrop := congrArg (List.drop batchFileHeaderSize) hu
    rw [List.drop_append_of_le_length (by omega), ← length_fileHead b.baseOffset len hdr, List.drop_left] at hdrop
    exact hdrop
  have hshort' : (t.drop batchFileHeaderSize).length < content.length := by
    simp only [List.length_drop, List.length_append, length_fileHead] at hlt ⊢
    omega
  have hsmall : content.length < 2 ^ 32 := by
    simp only [List.length_append, length_fileHead] at hfit
    omega
  rw [hhead]
  exact readFrom_cut hlen hsmall hcontent hshort'

end Torn

/-! ### The validation loop over whole batches -/

/-- The validator after reading a whole batch of base `base` and last offset delta `lod`,
which starts at `start` and ends at `pos`. -/
def LogValidator.record (val : LogValidator) (base : Int64) (lod : Int32) (start pos : Nat) : LogValidator :=
  { val with
    lastValidOffset := base + lod.toInt64
    lastValidBatchPos := start
    lastValidFilePos := pos
    batches := val.batches + 1 }

theorem WholeBatch.length_pos {chunk : List UInt8} {base : Int64} {lod : Int32}
    (h : WholeBatch chunk base lod) : 0 < chunk.length := by
  obtain ⟨len, hdr, content, rfl, -⟩ := h
  simp only [List.length_append, length_fileHead, batchFileHeaderSize, batchPreambleSize]
  omega

/-- One round of the loop: a whole batch at or above the segment's base is recorded. -/
theorem validateStream_whole {pre chunk rest : List UInt8} {base : Int64} {lod : Int32}
    (hchunk : WholeBatch chunk base lod) {val : LogValidator} (hbase : ¬ base < val.baseOffset) (fuel : Nat) :
    LogValidator.validateStream (pre ++ (chunk ++ rest)) (fuel + 1) val pre.length =
      LogValidator.validateStream (pre ++ (chunk ++ rest)) fuel
        (val.record base lod pre.length (pre ++ chunk).length) (pre ++ chunk).length := by
  obtain ⟨len, hdr, content, rfl, hlen, hsmall, hlod⟩ := hchunk
  have hread := readFrom_whole pre rest content base len hdr hlen hsmall
  have hpos : pre.length + batchFileHeaderSize + content.length = (pre ++ (fileHead base len hdr ++ content)).length := by
    simp only [List.length_append, length_fileHead]
    omega
  rw [hpos] at hread
  rw [LogValidator.validateStream, hread]
  simp only [hbase, if_false, LogValidator.record, hlod]

/-- **The loop over whole batches**: each is recorded in turn, and the validator ends with the
last one's offset and end position. Induction on the batches. -/
theorem validateStream_wholes {t : List UInt8} :
    ∀ {chunks : List (List UInt8)} {batches : List (Int64 × Int32)},
      List.Forall₂ (fun c b => WholeBatch c b.1 b.2) chunks batches →
      ∀ (pre : List UInt8) (val : LogValidator) (fuel : Nat),
        (∀ b ∈ batches, ¬ b.1 < val.baseOffset) → chunks.length ≤ fuel →
        ∃ val', val'.baseOffset = val.baseOffset ∧ val'.error = val.error ∧
          (batches = [] → val' = val) ∧
          (∀ b, batches.getLast? = some b → val'.lastValidOffset = b.1 + b.2.toInt64 ∧
            val'.lastValidFilePos = (pre ++ chunks.flatten).length) ∧
          LogValidator.validateStream (pre ++ (chunks.flatten ++ t)) fuel val pre.length =
            LogValidator.validateStream (pre ++ (chunks.flatten ++ t)) (fuel - chunks.length) val'
              (pre ++ chunks.flatten).length := by
  intro chunks batches h
  induction h with
  | nil =>
    intro pre val fuel _ _
    exact ⟨val, rfl, rfl, fun _ => rfl, by simp, by simp⟩
  | @cons c b cs bs hcb _ ih =>
    intro pre val fuel hbase hfuel
    obtain ⟨fuel, rfl⟩ : ∃ f, fuel = f + 1 := ⟨fuel - 1, by simp at hfuel; omega⟩
    set val1 := val.record b.1 b.2 pre.length (pre ++ c).length
    obtain ⟨val', hb', he', hnil', hlast', hrun'⟩ :=
      ih (pre ++ c) val1 fuel (fun b' hb' => hbase b' (List.mem_cons_of_mem b hb')) (by simp at hfuel; omega)
    refine ⟨val', hb', he', by simp, ?_, ?_⟩
    · intro b' hlast
      by_cases hbs : bs = []
      · subst hbs
        have hcs : cs = [] := by
          rename_i hrest
          exact List.forall₂_nil_right_iff.mp hrest
        subst hcs
        simp only [List.getLast?_singleton, Option.some.injEq] at hlast
        subst hlast
        rw [hnil' rfl]
        simp [val1, LogValidator.record]
      · rw [List.getLast?_cons, Option.some.injEq] at hlast
        obtain ⟨b'', hb''⟩ := Option.isSome_iff_exists.mp (List.getLast?_isSome.mpr hbs)
        rw [hb'', Option.getD_some] at hlast
        subst hlast
        obtain ⟨ho, hp⟩ := hlast' _ hb''
        exact ⟨ho, by rw [hp]; simp⟩
    · rw [List.flatten_cons, List.append_assoc, validateStream_whole hcb (hbase b List.mem_cons_self)]
      rw [← List.append_assoc, hrun']
      simp only [List.append_assoc, List.length_cons]
      congr 1
      omega

/-! ### Appends and recovery -/

section Appends

variable {R : Type} [Crc32c] [Encoder R]

/-- Appending batches one after the other, every one of them written: the segment, and the
batches as placed. -/
def MutableSegment.appendAll (seg : MutableSegment) : List (Batch R) → Option (MutableSegment × List (Batch R))
  | [] => some (seg, [])
  | batch :: rest =>
    match seg.appendBatch batch with
    | (.ok true, seg', placed) => (seg'.appendAll rest).map fun (last, placedRest) => (last, placed :: placedRest)
    | _ => none

/-- What appending `batches` to `seg` did, leaving `seg'`: the encodings `chunks` of the
batches as `placed` went to the end of the log file, one after the other from the end offset,
which moved past their records. -/
structure MutableSegment.Appended (seg seg' : MutableSegment) (batches placed : List (Batch R))
    (chunks : List (List UInt8)) : Prop where
  encodes : List.Forall₂ (fun c p => Encoder.encode p = some c) chunks placed
  bytes : seg'.msgLog.bytes = seg.msgLog.bytes ++ chunks.flatten
  baseOffset : seg'.baseOffset = seg.baseOffset
  logBase : seg'.msgLog.baseOffset = seg.msgLog.baseOffset
  maxLen : seg'.msgLog.maxLen = seg.msgLog.maxLen
  above : ∀ p ∈ placed, ¬ p.baseOffset < seg.msgLog.baseOffset
  nonempty : ∀ b ∈ batches, b.recordsLen ≠ 0
  placedAt : placed = placeBatches seg.endOffset batches
  endOffset : seg'.endOffset = seg.endOffset + Int64.ofNat (batches.map Batch.recordsLen).sum
  lastOffset : ∀ p, placed.getLast? = some p → seg'.endOffset = p.getLastOffset + 1

theorem MutableSegment.appendAll_appended :
    ∀ {seg seg' : MutableSegment} {batches placed : List (Batch R)},
      seg.appendAll batches = some (seg', placed) → ∃ chunks, seg.Appended seg' batches placed chunks
  | seg, seg', [], placed, h => by
    simp only [MutableSegment.appendAll, Option.some.injEq, Prod.mk.injEq] at h
    obtain ⟨rfl, rfl⟩ := h
    exact ⟨[], .nil, by simp, rfl, rfl, rfl, by simp, by simp, rfl, by simp, by simp⟩
  | seg, seg', batch :: rest, placed, h => by
    rcases MutableSegment.appendBatch_cases seg batch with
      ⟨_, hA⟩ | ⟨_, hA⟩ | ⟨h0, bytes, index, henc, hbase, hA⟩ | ⟨_, f, seg1, hA, -⟩
    · simp [MutableSegment.appendAll, hA] at h
    · simp [MutableSegment.appendAll, hA] at h
    · -- the first batch is written; the rest are appended to the segment it leaves
      simp only [MutableSegment.appendAll, hA, Option.map_eq_some_iff] at h
      obtain ⟨⟨last, placedRest⟩, hrest, hpair⟩ := h
      simp only [Prod.mk.injEq] at hpair
      obtain ⟨rfl, rfl⟩ := hpair
      obtain ⟨chunks, happ⟩ := MutableSegment.appendAll_appended hrest
      refine ⟨bytes :: chunks, ⟨.cons henc happ.encodes, ?_, happ.baseOffset, happ.logBase, happ.maxLen,
        ?_, ?_, ?_, ?_, ?_⟩⟩
      · rw [happ.bytes, List.flatten_cons, List.append_assoc]
      · intro p hp
        rcases List.mem_cons.mp hp with rfl | hp
        · exact hbase
        · exact happ.above p hp
      · intro b hb
        rcases List.mem_cons.mp hb with rfl | hb
        · exact h0
        · exact happ.nonempty b hb
      · rw [happ.placedAt]
        rfl
      · rw [happ.endOffset, List.map_cons, List.sum_cons, Int64.ofNat_add]
        grind
      · intro p hp
        cases placedRest with
        | nil =>
          simp only [List.getLast?_singleton, Option.some.injEq] at hp
          subst hp
          rw [happ.endOffset, Batch.getLastOffset_add_one h0]
          have hnil : rest = [] := by
            cases rest with
            | nil => rfl
            | cons b bs => exact absurd happ.placedAt (by simp [placeBatches])
          simp [hnil]
        | cons q qs =>
          rw [List.getLast?_cons_cons] at hp
          exact happ.lastOffset p hp
    · simp [MutableSegment.appendAll, hA] at h

end Appends

/-! ### Reopening -/

/-- The loop stops where `read_from` finds the end of the file. -/
theorem validateStream_of_readNone {file : List UInt8} {pos p : Nat} (hread : readFrom file pos = (.ok none, p))
    (fuel : Nat) (val : LogValidator) :
    LogValidator.validateStream file (fuel + 1) val pos = (val, .ok ()) := by
  rw [LogValidator.validateStream, hread]

/-- The loop stops on the error `read_from` returns. -/
theorem validateStream_of_readError {file : List UInt8} {pos p : Nat} {e : ReadError}
    (hread : readFrom file pos = (.error e, p)) (fuel : Nat) (val : LogValidator) :
    LogValidator.validateStream file (fuel + 1) val pos = (val, .error e) := by
  rw [LogValidator.validateStream, hread]

/-- Whole batches are never empty, so the file's length is fuel enough for them. -/
theorem WholeBatch.length_le_flatten {chunks : List (List UInt8)} {batches : List (Int64 × Int32)}
    (h : List.Forall₂ (fun c b => WholeBatch c b.1 b.2) chunks batches) : chunks.length ≤ chunks.flatten.length := by
  induction h with
  | nil => simp
  | cons hcb _ ih =>
    have := hcb.length_pos
    simp only [List.length_cons, List.flatten_cons, List.length_append]
    omega

/-- **Validating whole batches followed by a torn write**: the validator reads every batch and
stops at the end of the file, or with a `BatchHeaderError` right after the last batch. -/
theorem LogValidator.validate_wholes {R : Type} [Crc32c] [Encoder R] {chunks : List (List UInt8)}
    {batches : List (Int64 × Int32)} {base : Int64} {t : List UInt8}
    (hwhole : List.Forall₂ (fun c b => WholeBatch c b.1 b.2) chunks batches)
    (habove : ∀ b ∈ batches, ¬ b.1 < base) (ht : TornWrite R t) :
    ∃ val, LogValidator.validate (chunks.flatten ++ t) base = .ok val ∧ val.baseOffset = base ∧
      (batches = [] → val.lastValidOffset = -1) ∧
      (∀ b, batches.getLast? = some b → val.lastValidOffset = b.1 + b.2.toInt64) ∧
      ((t = [] ∧ val.error = none) ∨
        ∃ e, val.error = some (.batchDecoding e) ∧ val.lastValidFilePos = chunks.flatten.length) := by
  have hfuel : chunks.length ≤ (chunks.flatten ++ t).length := by
    have := WholeBatch.length_le_flatten hwhole
    simp only [List.length_append]
    omega
  obtain ⟨val, hb, he, hnil, hlast, hrun⟩ :=
    validateStream_wholes (t := t) hwhole [] ⟨base, 0, -1, 0, 0, none⟩ ((chunks.flatten ++ t).length + 1)
      habove (by omega)
  simp only [List.nil_append, List.length_nil] at hrun hlast
  obtain ⟨k, hk⟩ : ∃ k, (chunks.flatten ++ t).length + 1 - chunks.length = k + 1 :=
    ⟨(chunks.flatten ++ t).length - chunks.length, by omega⟩
  rw [hk] at hrun
  -- where the last whole batch ends, also when there is none
  have hpos : val.lastValidFilePos = chunks.flatten.length := by
    cases hbs : batches.getLast? with
    | none =>
      have hbnil : batches = [] := List.getLast?_eq_none_iff.mp hbs
      subst hbnil
      rw [List.forall₂_nil_right_iff.mp hwhole, hnil rfl]
      rfl
    | some b => exact (hlast b hbs).2
  have hcommon : val.baseOffset = base ∧ (batches = [] → val.lastValidOffset = -1) ∧
      (∀ b, batches.getLast? = some b → val.lastValidOffset = b.1 + b.2.toInt64) :=
    ⟨hb, fun h => by rw [hnil h], fun b h => (hlast b h).1⟩
  have htorn : t = [] ∨
      ∃ e p, readFrom (chunks.flatten ++ t) chunks.flatten.length = (.error (.header e), p) :=
    readFrom_torn ht
  rcases htorn with rfl | ⟨e, p, hread⟩
  · -- nothing follows the last batch
    have hend := validateStream_of_readNone (readFrom_end chunks.flatten) k val
    rw [List.append_nil] at hrun ⊢
    refine ⟨val, ?_, hcommon.1, hcommon.2.1, hcommon.2.2, .inl ⟨rfl, he⟩⟩
    rw [LogValidator.validate, hrun, hend]
  · -- a torn write follows it
    have hend := validateStream_of_readError hread k val
    refine ⟨{ val with error := some (.batchDecoding e) }, ?_, hcommon.1, hcommon.2.1, hcommon.2.2,
      .inr ⟨e, rfl, hpos⟩⟩
    rw [LogValidator.validate, hrun, hend]

/-- `validate_and_repair` after such a validation: the file keeps the whole batches, and the
end offset is the validator's. -/
theorem MutableSegment.validateAndRepair_of_validate {good t : List UInt8} {base : Int64} {maxLen : Nat}
    {val : LogValidator} (hval : LogValidator.validate (good ++ t) base = .ok val)
    (hend : (t = [] ∧ val.error = none) ∨
      ∃ e, val.error = some (.batchDecoding e) ∧ val.lastValidFilePos = good.length) :
    (MutableSegment.openForWrite base (good ++ t) maxLen).validateAndRepair =
      (.ok val.leo, ⟨base, val.leo, ⟨base, good, maxLen⟩, ⟨0⟩⟩) := by
  rcases hend with ⟨rfl, herr⟩ | ⟨e, herr, hpos⟩
  · rw [List.append_nil] at hval
    simp only [MutableSegment.validateAndRepair, MutableSegment.openForWrite, List.append_nil, hval, herr]
  · simp only [MutableSegment.validateAndRepair, MutableSegment.openForWrite, hval, herr, hpos,
      List.take_left]

/-- The validator's `leo` is one past the last offset it read, unless that wrapped to `-1`. -/
theorem LogValidator.leo_of_lastValid {val : LogValidator} {e : Int64} (h : val.lastValidOffset + 1 = e)
    (hne : e ≠ 0) : val.leo = e := by
  have hvalid : val.lastValidOffset ≠ -1 := by
    intro hm
    rw [hm] at h
    exact hne (h ▸ rfl)
  simp only [LogValidator.leo, hvalid, if_false, h]

/-- A placed batch is one of the batches with another base offset. -/
theorem mem_placeBatches {R : Type} {p : Batch R} : ∀ {leo : Int64} {batches : List (Batch R)},
    p ∈ placeBatches leo batches → ∃ b ∈ batches, ∃ offset, p = { b with baseOffset := offset }
  | _, [], h => by simp [placeBatches] at h
  | leo, b :: rest, h => by
    rcases List.mem_cons.mp h with rfl | h
    · exact ⟨b, List.mem_cons_self, leo, rfl⟩
    · obtain ⟨b', hb', offset, rfl⟩ := mem_placeBatches h
      exact ⟨b', List.mem_cons_of_mem b hb', offset, rfl⟩

/-- A fresh index takes any first relative offset. -/
@[simp] theorem MutLogIndex.writeIndex_fresh (offsetDelta : Nat) :
    (⟨0⟩ : MutLogIndex).writeIndex offsetDelta = (.ok (), ⟨offsetDelta⟩) := by
  unfold MutLogIndex.writeIndex
  split <;> simp_all

section Reopen

variable {R : Type} [Crc32c] [Encoder R]

/-- The encodings of batches shorter than `2 ^ 31` bytes are whole batches for the reader. -/
theorem wholeBatches_of_encodes (hR : SizeAgrees R) {chunks : List (List UInt8)} {placed : List (Batch R)}
    (henc : List.Forall₂ (fun c p => Encoder.encode p = some c) chunks placed)
    (hsmall : ∀ p ∈ placed, ∀ bytes, Encoder.encode p = some bytes → bytes.length < 2 ^ 31) :
    List.Forall₂ (fun c b => WholeBatch c b.1 b.2) chunks
      (placed.map fun p => (p.baseOffset, p.header.lastOffsetDelta)) := by
  induction henc with
  | nil => exact .nil
  | @cons c p cs ps hcp _ ih =>
    refine .cons (Batch.wholeBatch_of_encode (hR _) hcp (hsmall p List.mem_cons_self c hcp)) ?_
    exact ih fun q hq => hsmall q (List.mem_cons_of_mem p hq)

/-- **Reopening a segment after a crash**: the batches appended before it are read back, the
torn write after them is cut off, and the end offset is where the appends left it. -/
theorem MutableSegment.reopen_appended (hR : SizeAgrees R) {base : Int64} {maxLen : Nat}
    {batches placed : List (Batch R)} {seg : MutableSegment} {chunks : List (List UInt8)}
    (happ : (MutableSegment.create base maxLen).Appended seg batches placed chunks)
    (hsmall : ∀ b ∈ batches, ∀ bytes, Encoder.encode b = some bytes → bytes.length < 2 ^ 31)
    (hbase : 0 ≤ base.toInt) (hbound : base.toInt + (batches.map Batch.recordsLen).sum < 2 ^ 63)
    {t : List UInt8} (ht : TornWrite R t) :
    (MutableSegment.openForWrite base (chunks.flatten ++ t) maxLen).validateAndRepair =
      (.ok (base + Int64.ofNat (batches.map Batch.recordsLen).sum),
        ⟨base, base + Int64.ofNat (batches.map Batch.recordsLen).sum, ⟨base, chunks.flatten, maxLen⟩, ⟨0⟩⟩) := by
  -- placing a batch does not change its length, so the placed batches are short too
  have hsmallPlaced : ∀ p ∈ placed, ∀ bytes, Encoder.encode p = some bytes → bytes.length < 2 ^ 31 := by
    intro p hp bytes henc
    rw [happ.placedAt] at hp
    obtain ⟨b, hb, offset, rfl⟩ := mem_placeBatches hp
    have hlen := Batch.encode_length_withBase (hR b.records) offset
    rw [henc, Option.map_some] at hlen
    obtain ⟨bytes0, h0, hl⟩ := Option.map_eq_some_iff.mp hlen.symm
    rw [← hl]
    exact hsmall b hb bytes0 h0
  have habove : ∀ b ∈ placed.map (fun p => (p.baseOffset, p.header.lastOffsetDelta)), ¬ b.1 < base := by
    intro b hb
    obtain ⟨p, hp, rfl⟩ := List.mem_map.mp hb
    exact happ.above p hp
  obtain ⟨val, hval, hvb, hnil, hlast, hend⟩ :=
    LogValidator.validate_wholes (wholeBatches_of_encodes hR happ.encodes hsmallPlaced) habove ht
  have hseg : seg.endOffset = base + Int64.ofNat (batches.map Batch.recordsLen).sum := happ.endOffset
  have hleo : val.leo = base + Int64.ofNat (batches.map Batch.recordsLen).sum := by
    cases hp : placed.getLast? with
    | none =>
      -- nothing was appended
      have hplaced : placed = [] := List.getLast?_eq_none_iff.mp hp
      have hbatches : batches = [] := by
        cases batches with
        | nil => rfl
        | cons b bs => exact absurd (happ.placedAt ▸ hplaced) (by simp [placeBatches])
      subst hplaced hbatches
      simp [LogValidator.leo, hnil rfl, hvb]
    | some p =>
      have hlastVal := hlast _ (by rw [List.getLast?_map, hp]; rfl)
      have hnonempty : batches ≠ [] := by
        rintro rfl
        rw [happ.placedAt] at hp
        simp [placeBatches] at hp
      obtain ⟨b, bs, rfl⟩ := List.exists_cons_of_ne_nil hnonempty
      have hpos : 0 < (b :: bs |>.map Batch.recordsLen).sum := by
        have := happ.nonempty b List.mem_cons_self
        simp only [List.map_cons, List.sum_cons]
        omega
      apply LogValidator.leo_of_lastValid
      · rw [hlastVal, ← hseg, happ.lastOffset p hp]
        rfl
      · intro hzero
        have hsum := Bits.toInt_add_ofNat hbase hbound
        rw [hzero, show (0 : Int64).toInt = 0 from rfl] at hsum
        omega
  rw [← hleo]
  exact MutableSegment.validateAndRepair_of_validate hval hend

/-- A segment with a fresh index takes every non-empty batch that fits: the index is told its
relative offset, and the end offset moves past its records. -/
theorem MutableSegment.appendBatch_freshIndex {seg : MutableSegment} {batch : Batch R} {bytes : List UInt8}
    (hidx : seg.index = ⟨0⟩) (hne : batch.recordsLen ≠ 0) (hbase : ¬ seg.endOffset < seg.msgLog.baseOffset)
    (hsize : SizeAgreesAt ({ batch with baseOffset := seg.endOffset } : Batch R))
    (henc : Encoder.encode ({ batch with baseOffset := seg.endOffset } : Batch R) = some bytes)
    (hfit : seg.msgLog.bytes.length + bytes.length ≤ seg.msgLog.maxLen) (hmax : seg.msgLog.maxLen < 2 ^ 32) :
    seg.appendBatch batch = (.ok true,
      { seg with
        msgLog := { seg.msgLog with bytes := seg.msgLog.bytes ++ bytes }
        index := ⟨(seg.endOffset - seg.baseOffset).toInt32.toUInt32.toNat⟩
        endOffset := seg.endOffset + Int64.ofNat batch.recordsLen },
      { batch with baseOffset := seg.endOffset }) := by
  have hws : Encoder.writeSize ({ batch with baseOffset := seg.endOffset } : Batch R) = some bytes.length := by
    rw [hsize, henc]
    rfl
  have hwrite : seg.msgLog.writeBatch ({ batch with baseOffset := seg.endOffset } : Batch R) =
      (.ok (true, bytes.length, (seg.msgLog.bytes ++ bytes).length),
        { seg.msgLog with bytes := seg.msgLog.bytes ++ bytes }) :=
    MutFileRecords.writeBatch_fits hbase hws henc hfit hmax
  simp only [MutableSegment.appendBatch, hne, if_false, hwrite, hidx, MutLogIndex.writeIndex_fresh]
  rw [Batch.getLastOffset_add_one hne]

end Reopen

/-- The size `write_size` gives a batch of raw records. -/
theorem Batch.writeSize_raw (b : Batch RawRecords) :
    Encoder.writeSize b = some (batchFileHeaderSize + b.records.bytes.length) := rfl

/-- A batch of `2 ^ 31` raw bytes and one record. -/
def hugeBatch : Batch RawRecords :=
  { (default : Batch RawRecords) with
    header := { (default : BatchHeader) with lastOffsetDelta := 0 }
    records := ⟨List.replicate (2 ^ 31) 0⟩ }

/-- The batch of `2 ^ 31` raw bytes goes into a new segment of `2 ^ 32 - 1` bytes at `0`: the
file then holds its preamble and header, with `batch_len` the `i32` of the header's and the
records' length, and its `2 ^ 31` bytes of records, and the segment ends at `1`. -/
theorem hugeBatch_appended :
    ∃ hdr content, content.length = 2 ^ 31 ∧
      (MutableSegment.create 0 (2 ^ 32 - 1)).appendBatch hugeBatch =
        (.ok true,
          { MutableSegment.create 0 (2 ^ 32 - 1) with
            msgLog := ⟨0, fileHead 0 (Int32.ofNat (batchHeaderSize + content.length)) hdr ++ content, 2 ^ 32 - 1⟩
            index := ⟨0⟩
            endOffset := 1 },
          { hugeBatch with baseOffset := 0 }) := by
  have hne : hugeBatch.recordsLen ≠ 0 := by decide
  have hschema : hugeBatch.header.hasSchema = false := by decide
  have hsize : SizeAgreesAt ({ hugeBatch with baseOffset := 0 } : Batch RawRecords) :=
    Batch.sizeAgreesAt (RawRecords.sizeAgrees _) hschema
  obtain ⟨bytes, henc⟩ : ∃ bytes, Encoder.encode ({ hugeBatch with baseOffset := 0 } : Batch RawRecords) = some bytes := by
    obtain ⟨crc, h⟩ := Batch.encode_eq (b := { hugeBatch with baseOffset := 0 }) (RawRecords.sizeAgrees _) rfl
    exact ⟨_, h⟩
  obtain ⟨hdr, content, hbytes, -⟩ := Batch.encode_layout (RawRecords.sizeAgrees _) henc
  -- the content is the `2 ^ 31` record bytes: the writer's size and the encoder's agree
  have hcontent : content.length = 2 ^ 31 := by
    have hws : Encoder.writeSize ({ hugeBatch with baseOffset := 0 } : Batch RawRecords) =
        some (batchFileHeaderSize + 2 ^ 31) := by
      rw [Batch.writeSize_raw]
      simp only [hugeBatch, List.length_replicate]
    rw [hsize, henc, hbytes, Option.map_some, Option.some.injEq, List.length_append, length_fileHead] at hws
    omega
  have hfit : (MutableSegment.create 0 (2 ^ 32 - 1)).msgLog.bytes.length + bytes.length ≤ 2 ^ 32 - 1 := by
    simp only [MutableSegment.create, List.length_nil, hbytes, List.length_append, length_fileHead, hcontent,
      batchFileHeaderSize, batchPreambleSize, batchHeaderSize]
    omega
  have happend := @MutableSegment.appendBatch_freshIndex RawRecords _ _ (MutableSegment.create 0 (2 ^ 32 - 1))
    hugeBatch bytes rfl hne (by decide) hsize henc hfit (by decide)
  have hend : (0 : Int64) + Int64.ofNat hugeBatch.recordsLen = 1 := by decide
  have hrel : ((0 : Int64) - 0).toInt32.toUInt32.toNat = 0 := by decide
  refine ⟨hdr, content, hcontent, ?_⟩
  rw [happend]
  simp only [MutableSegment.create, hend, hrel, List.nil_append, hbytes]

end Fluvio.Storage
