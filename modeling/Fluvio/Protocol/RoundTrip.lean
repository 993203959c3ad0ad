import Fluvio.Protocol.Batch
import Mathlib.Data.List.Forall2

/-!
The record-batch codec round trip: what `RecordSet::decode` gives back of the bytes
`RecordSet::encode` writes.

* `Batch.DecodesTo b b'` — the batch `b'` the decoder returns for `b`: every field
  as it was except the CRC (the encoder's), `batch_len` (`calc_batch_len`) and the
  schema id (kept only when flagged).
* `Batch.decode_encode` — a batch whose records read back decodes to such a
  batch, reading exactly its encoding, with or without the schema flag: the
  decoder's `batch_len - BATCH_HEADER_SIZE - 4` is the size the encoder's
  `calc_batch_len` added.
* `RecordSet.decode_encode` — a record set of such batches, fewer than `2 ^ 31`
  bytes of them, decodes batch by batch, the loop's fuel never running out.
-/

namespace Fluvio.Protocol

open Cursor

/-- The 45 bytes of a header in field order, as the batch decoder reads them. -/
def BatchHeader.bytes (h : BatchHeader) : List UInt8 :=
  i32Width.put h.partitionLeaderEpoch ++ i8Width.put h.magic ++ u32Width.put h.crc ++
    i16Width.put h.attributes ++ i32Width.put h.lastOffsetDelta ++ i64Width.put h.firstTimestamp ++
    i64Width.put h.maxTimeStamp ++ i64Width.put h.producerId ++ i16Width.put h.producerEpoch ++
    i32Width.put h.firstSequence

@[simp] theorem BatchHeader.length_bytes (h : BatchHeader) : h.bytes.length = batchHeaderSize := by
  simp [BatchHeader.bytes, i32Width, i8Width, u32Width, i16Width, i64Width, batchHeaderSize]

theorem BatchHeader.decode_bytes (h : BatchHeader) (bound : Nat) :
    ReadsExactly bound BatchHeader.decode h.bytes h := by
  have hb : h.bytes = i32Width.put h.partitionLeaderEpoch ++ (i8Width.put h.magic ++
      (u32Width.put h.crc ++ (i16Width.put h.attributes ++ (i32Width.put h.lastOffsetDelta ++
      (i64Width.put h.firstTimestamp ++ (i64Width.put h.maxTimeStamp ++ (i64Width.put h.producerId ++
      (i16Width.put h.producerEpoch ++ (i32Width.put h.firstSequence ++ []))))))))) := by
    simp [BatchHeader.bytes]
  rw [hb]
  refine ReadsExactly.bind (i32Width.get_put _ _ bound) ?_
  refine ReadsExactly.bind (i8Width.get_put _ _ bound) ?_
  refine ReadsExactly.bind (u32Width.get_put _ _ bound) ?_
  refine ReadsExactly.bind (i16Width.get_put _ _ bound) ?_
  refine ReadsExactly.bind (i32Width.get_put _ _ bound) ?_
  refine ReadsExactly.bind (i64Width.get_put _ _ bound) ?_
  refine ReadsExactly.bind (i64Width.get_put _ _ bound) ?_
  refine ReadsExactly.bind (i64Width.get_put _ _ bound) ?_
  refine ReadsExactly.bind (i16Width.get_put _ _ bound) ?_
  refine ReadsExactly.bind (i32Width.get_put _ _ bound) ?_
  exact ReadsExactly.pure h


theorem BatchHeader.decode_bytes_apply (h : BatchHeader) (rest : List UInt8) :
    BatchHeader.decode (h.bytes ++ rest) = .ok h rest :=
  h.decode_bytes _ rest (Nat.lt_succ_self _)

/-! ### Batches -/

section Head

variable {R : Type}

/-- The schema id's bytes in a batch: present only when the header flags it. -/
def Batch.schemaBytes (b : Batch R) : List UInt8 :=
  if b.header.hasSchema then u32Width.put b.schemaId else []

/-- The bytes `Batch::encode` writes before records of `n` bytes: the preamble with
`calc_batch_len`, the header with the CRC `crc`, and the schema id when flagged. -/
def Batch.headBytes (b : Batch R) (crc : UInt32) (n : Nat) : List UInt8 :=
  i64Width.put b.baseOffset ++
    i32Width.put (Int32.ofNat (batchHeaderSize + n + b.schemaBytes.length)) ++
    ({ b.header with crc := crc } : BatchHeader).bytes ++ b.schemaBytes

@[simp] theorem Batch.length_headBytes (b : Batch R) (crc : UInt32) (n : Nat) :
    (b.headBytes crc n).length = batchFileHeaderSize + b.schemaBytes.length := by
  simp [Batch.headBytes, batchFileHeaderSize, batchPreambleSize, i64Width, i32Width]
  omega

/-- The batch `Batch::decode` builds from `b.headBytes crc n` and the records it reads. -/
def Batch.decodedHead (b : Batch R) (crc : UInt32) (n : Nat) (records : R) : Batch R :=
  ⟨b.baseOffset, Int32.ofNat (batchHeaderSize + n + b.schemaBytes.length),
    { b.header with crc := crc }, if b.header.hasSchema then b.schemaId else 0, records⟩

/-- What `Batch::decode` does after the preamble, the header and the schema id: decode the
records from the number of bytes `batch_len` leaves for them. -/
theorem Batch.decode_headBytes [Decoder R] [Inhabited R] (b : Batch R) (crc : UInt32) {n : Nat}
    (hfit : batchHeaderSize + n + b.schemaBytes.length < 2 ^ 31) (s : List UInt8) :
    Batch.decode (b.headBytes crc n ++ s) =
      (Batch.decodeRecords (R := R) n s).map (b.decodedHead crc n) := by
  have hlen := Int32.asUsize_ofNat hfit
  set blen := batchHeaderSize + n + b.schemaBytes.length with hblen
  have hs' : ({ b.header with crc := crc } : BatchHeader).hasSchema = b.header.hasSchema := rfl
  have hbase : ∀ rest, (Decoder.decode : Decode Int64) (i64Width.put b.baseOffset ++ rest) =
      .ok b.baseOffset rest := FixedWidth.get_put_apply i64Width _ _
  have hbatchLen : ∀ rest, (Decoder.decode : Decode Int32) (i32Width.put (Int32.ofNat blen) ++ rest) =
      .ok (Int32.ofNat blen) rest := FixedWidth.get_put_apply i32Width _ _
  simp only [Batch.headBytes, List.append_assoc]
  rw [Batch.decode, bind_ok (hbase _), bind_ok (hbatchLen _), bind_ok (BatchHeader.decode_bytes_apply _ _)]
  -- the branch on the schema flag, as the decoder reads it from the header
  cases hs : b.header.hasSchema with
  | false =>
    have hnil : b.schemaBytes = [] := by simp [Batch.schemaBytes, hs]
    have hrec : blen - batchHeaderSize = n := by rw [hblen, hnil, List.length_nil]; omega
    simp only [hs'.trans hs, Bool.false_eq_true, if_false, hlen, hnil, List.nil_append]
    rw [bind_ok (usizeSub_of_le (by omega) _), hrec, bind_pure_apply]
    congr 1
    funext records
    simp only [Batch.decodedHead, hs, Bool.false_eq_true, if_false]
    rfl
  | true =>
    have hsid : b.schemaBytes = u32Width.put b.schemaId := by simp [Batch.schemaBytes, hs]
    have hsize : b.schemaBytes.length = schemaIdSize := by rw [hsid]; rfl
    have hrec : blen - batchHeaderSize - schemaIdSize = n := by rw [hblen, hsize]; omega
    have hsidDec : ∀ rest, (Decoder.decode : Decode UInt32) (u32Width.put b.schemaId ++ rest) =
        .ok b.schemaId rest := FixedWidth.get_put_apply u32Width _ _
    simp only [hs'.trans hs, if_true, hlen, hsid]
    rw [bind_ok (hsidDec _), bind_ok (usizeSub_of_le (by rw [hblen]; omega) _),
      bind_ok (usizeSub_of_le (by rw [hblen, hsize]; omega) _), hrec, bind_pure_apply]
    congr 1
    funext records
    simp only [Batch.decodedHead, hs, if_true]
    rfl

end Head

section Batch

variable {R : Type} [Encoder R]

theorem Batch.decodeRecords_reads [Decoder R] [Inhabited R] {x : R} {rb : List UInt8} (hx : ReadsBack x)
    (henc : Encoder.encode x = some rb) (hne : rb ≠ []) :
    ReadsExactly bufferLimit (Batch.decodeRecords (R := R) rb.length) rb x := by
  apply ReadsExactly.limit
  intro rest hlen
  have hpos : 0 < (rb ++ rest).length := by
    rw [List.length_append]
    have := List.length_pos_iff.mpr hne
    omega
  simp only [bind_apply, remaining_apply, Result.andThen_ok, if_pos hpos]
  exact hx rb henc rest hlen

/-- The records' part of `calc_batch_len`, once their size is known. -/
theorem Batch.calcBatchLen_of_size {b : Batch R} {n : Nat} (h : Encoder.writeSize b.records = some n) :
    b.calcBatchLen = some (Int32.ofNat (batchHeaderSize + n + b.schemaBytes.length)) := by
  cases hs : b.header.hasSchema <;>
    simp [Batch.calcBatchLen, Batch.schemaBytes, h, hs, schemaIdSize, Nat.add_assoc]

/-- `Batch::encode` writes the head bytes, with the CRC of what follows the CRC, then the
records. -/
theorem Batch.encode_eq [Crc32c] {b : Batch R} {rb : List UInt8} (hsize : SizeAgreesAt b.records)
    (hr : Encoder.encode b.records = some rb) : ∃ crc, b.encode = some (b.headBytes crc rb.length ++ rb) := by
  have hws : Encoder.writeSize b.records = some rb.length := by rw [hsize, hr]; rfl
  cases ho : b.encodeOut with
  | none => simp [Batch.encodeOut, hr] at ho
  | some out =>
    refine ⟨Crc32c.crc32c out, ?_⟩
    simp only [Batch.encodeOut, hr, Option.bind_eq_bind, Option.bind_some, Option.pure_def,
      Option.some.injEq] at ho
    subst ho
    simp only [Batch.encode, Batch.calcBatchLen_of_size hws, Batch.encodeOut, hr, Option.bind_eq_bind,
      Option.bind_some, Option.pure_def, Option.some.injEq]
    cases hs : b.header.hasSchema <;> simp [Batch.headBytes, Batch.schemaBytes, hs, BatchHeader.bytes]

theorem Batch.length_encode [Crc32c] {b : Batch R} {bs : List UInt8} (h : b.encode = some bs) :
    batchPreambleSize ≤ bs.length := by
  simp only [Batch.encode, Option.bind_eq_bind] at h
  cases hl : b.calcBatchLen with
  | none => simp [hl] at h
  | some bl =>
    cases ho : b.encodeOut with
    | none => simp [hl, ho] at h
    | some out =>
      simp only [hl, ho, Option.bind_some, Option.pure_def, Option.some.injEq] at h
      subst h
      simp [batchPreambleSize, i64Width, i32Width]
      omega

/-- What decoding gives back of a batch: every field as it was except the CRC, which
is the one the encoder computed, `batch_len`, which is `calc_batch_len`, and the schema
id, which only a flagged batch carries. -/
structure Batch.DecodesTo (b b' : Batch R) : Prop where
  baseOffset : b'.baseOffset = b.baseOffset
  header : b'.header = { b.header with crc := b'.header.crc }
  batchLen : b.calcBatchLen = some b'.batchLen
  schemaId : b.header.hasSchema = true → b'.schemaId = b.schemaId
  records : b'.records = b.records

theorem Batch.decodesTo_decodedHead {b : Batch R} {n : Nat} (h : Encoder.writeSize b.records = some n)
    (crc : UInt32) : b.DecodesTo (b.decodedHead crc n b.records) :=
  ⟨rfl, rfl, Batch.calcBatchLen_of_size h, fun hs => if_pos hs, rfl⟩

theorem Batch.DecodesTo.validateDecoding {b b' : Batch R} (h : b.DecodesTo b') :
    b'.validateDecoding = true := by
  have hschema : b'.header.hasSchema = b.header.hasSchema := by
    rw [h.header]
    rfl
  have hcalc : b'.calcBatchLen = b.calcBatchLen := by
    simp only [Batch.calcBatchLen, hschema, h.records]
  simp [Batch.validateDecoding, hcalc, h.batchLen]

/-- A batch whose records read back decodes to what `DecodesTo` says, reading exactly its
encoding, with or without the schema flag. -/
theorem Batch.decode_encode [Crc32c] [Decoder R] [Inhabited R] {b : Batch R} {rb : List UInt8}
    (hsize : SizeAgreesAt b.records) (hR : ReadsBack b.records) (hr : Encoder.encode b.records = some rb)
    (hne : rb ≠ []) (hfit : batchHeaderSize + rb.length + b.schemaBytes.length < 2 ^ 31) :
    ∃ bs b', b.encode = some bs ∧ ReadsExactly bufferLimit Batch.decode bs b' ∧ b.DecodesTo b' := by
  obtain ⟨crc, henc⟩ := Batch.encode_eq hsize hr
  have hws : Encoder.writeSize b.records = some rb.length := by rw [hsize, hr]; rfl
  refine ⟨_, _, henc, fun rest hlen => ?_, Batch.decodesTo_decodedHead hws crc⟩
  rw [List.append_assoc] at hlen ⊢
  rw [Batch.decode_headBytes b crc hfit, Batch.decodeRecords_reads hR hr hne rest (by
    simp only [List.length_append] at hlen ⊢; omega)]
  rfl

end Batch

/-! ### Record sets -/

/-- Non-empty chunks are at least as many bytes as there are chunks. -/
theorem length_le_length_flatten {β : Type} {P : List UInt8 → β → Prop} {chunks : List (List UInt8)}
    {bs : List β} (h : List.Forall₂ (fun c b => P c b ∧ c ≠ []) chunks bs) :
    chunks.length ≤ chunks.flatten.length := by
  induction h with
  | nil => simp
  | @cons c b cs bs hcb _ ih =>
    have hc := List.length_pos_iff.mpr hcb.2
    simp only [List.length_cons, List.flatten_cons, List.length_append]
    omega

section RecordSet

variable {R : Type} [Decoder R] [Inhabited R]

theorem RecordSet.decodeBatches_nil (fuel : Nat) (acc : List (Batch R)) :
    RecordSet.decodeBatches fuel acc [] = .ok acc [] := by
  cases fuel <;> rfl

/-- The batch loop over consecutive batch encodings decodes each of them, given one round
per batch. -/
theorem RecordSet.decodeBatches_flatten {chunks : List (List UInt8)} {bs : List (Batch R)}
    (h : List.Forall₂ (fun c b => ReadsExactly bufferLimit Batch.decode c b ∧ c ≠ []) chunks bs) :
    ∀ (fuel : Nat) (acc : List (Batch R)), chunks.length ≤ fuel →
      chunks.flatten.length < bufferLimit →
      RecordSet.decodeBatches fuel acc chunks.flatten = .ok (acc ++ bs) [] := by
  induction h with
  | nil =>
    intro fuel acc _ _
    simp [RecordSet.decodeBatches_nil]
  | @cons c b chunks bs hcb _ ih =>
    intro fuel acc hfuel hlen
    obtain ⟨hread, hne⟩ := hcb
    obtain ⟨fuel, rfl⟩ : ∃ f, fuel = f + 1 := ⟨fuel - 1, by simp at hfuel; omega⟩
    have hpos : 0 < (c ++ chunks.flatten).length := by
      have := List.length_pos_iff.mpr hne
      simp only [List.length_append]
      omega
    rw [List.flatten_cons] at hlen ⊢
    simp only [RecordSet.decodeBatches, if_pos hpos, hread _ hlen]
    rw [ih fuel (acc ++ [b]) (by simp at hfuel; omega)
      (by simp only [List.length_append] at hlen; omega), List.append_assoc, List.singleton_append]

end RecordSet

section RecordSetEncode

variable {R : Type} [Encoder R] [Decoder R] [Inhabited R]

/-- Batches that each encode and read back, one after another. -/
theorem encodeAll_batches [Crc32c] {batches : List (Batch R)}
    (h : ∀ b ∈ batches, ∃ bb b', Encoder.encode b = some bb ∧
      ReadsExactly bufferLimit Batch.decode bb b' ∧ b.DecodesTo b') :
    ∃ chunks bs', encodeAll batches = some chunks.flatten ∧
      List.Forall₂ (fun c b' => ReadsExactly bufferLimit Batch.decode c b' ∧ c ≠ []) chunks bs' ∧
      List.Forall₂ Batch.DecodesTo batches bs' := by
  induction batches with
  | nil => exact ⟨[], [], rfl, .nil, .nil⟩
  | cons b bs ih =>
    obtain ⟨bb, b', henc, hread, hdec⟩ := h b List.mem_cons_self
    obtain ⟨chunks, bs', hall, hreads, hdecs⟩ := ih fun x hx => h x (List.mem_cons_of_mem b hx)
    have hne : bb ≠ [] := by
      have := Batch.length_encode henc
      intro hnil
      simp [hnil, batchPreambleSize] at this
    refine ⟨bb :: chunks, b' :: bs', ?_, .cons ⟨hread, hne⟩ hreads, .cons hdec hdecs⟩
    simp [encodeAll, henc, hall]

theorem RecordSet.decode_encode [Crc32c] {rs : RecordSet R}
    (h : ∀ b ∈ rs.batches, ∃ bb b', Encoder.encode b = some bb ∧
      ReadsExactly bufferLimit Batch.decode bb b' ∧ b.DecodesTo b')
    (hfit : ∀ out, encodeAll rs.batches = some out → out.length < 2 ^ 31) :
    ∃ bytes rs', Encoder.encode rs = some bytes ∧
      ReadsExactly bufferLimit (Decoder.decode : Decode (RecordSet R)) bytes rs' ∧
      List.Forall₂ Batch.DecodesTo rs.batches rs'.batches := by
  obtain ⟨chunks, bs', hall, hreads, hdecs⟩ := encodeAll_batches h
  have hlen : chunks.flatten.length < 2 ^ 31 := hfit _ hall
  have hfuel : chunks.length ≤ chunks.flatten.length := length_le_length_flatten hreads
  have hasUsize : Int32.asUsize (Int32.ofNat chunks.flatten.length) = chunks.flatten.length :=
    Int32.asUsize_ofNat hlen
  refine ⟨i32Width.put (Int32.ofNat chunks.flatten.length) ++ chunks.flatten, ⟨bs'⟩,
    by simp [Encoder.encode, RecordSet.encode, hall], ?_, hdecs⟩
  intro rest hbound
  rw [List.append_assoc] at hbound ⊢
  have hhead : (Decoder.decode : Decode Int32)
      (i32Width.put (Int32.ofNat chunks.flatten.length) ++ (chunks.flatten ++ rest)) =
        .ok (Int32.ofNat chunks.flatten.length) (chunks.flatten ++ rest) :=
    i32Width.get_put "can't read i32" _ bufferLimit _ hbound
  have hloop := RecordSet.decodeBatches_flatten hreads chunks.flatten.length [] hfuel
    (by simp only [List.length_append] at hbound; omega)
  rw [List.nil_append] at hloop
  have hcmp : ¬ (chunks.flatten ++ rest).length < chunks.flatten.length := by simp
  show RecordSet.decode _ = _
  simp only [RecordSet.decode, bind_apply, hhead, Result.andThen_ok, remaining_apply, hasUsize, hcmp,
    if_false, limit_append _ _ rest hloop, pure_apply]

end RecordSetEncode

/-! ### `MemoryRecords` -/

theorem MemoryRecords.sizeAgrees : SizeAgrees MemoryRecords :=
  Vec.sizeAgrees (Record.sizeAgrees RecordData.sizeAgrees)

theorem MemoryRecords.encode_eq {xs : MemoryRecords} (h : ∀ r ∈ xs, r.Fits) :
    ∃ out, encodeAll xs = some out ∧
      Encoder.encode xs = some (u32Width.put (UInt32.ofNat xs.length) ++ out) := by
  obtain ⟨out, hout⟩ := Option.isSome_iff_exists.mp
    (encodeAll_isSome fun r hr => Record.encode_isSome (h r hr))
  exact ⟨out, hout, by simp [Encoder.encode, vecEncode, hout]⟩

theorem MemoryRecords.readsBack {xs : MemoryRecords} (h : ∀ r ∈ xs, r.Fits) {rb : List UInt8}
    (hrb : Encoder.encode xs = some rb) (hlen : rb.length < 2 ^ 31) : ReadsBack xs := by
  obtain ⟨out, hout, henc⟩ := MemoryRecords.encode_eq h
  rw [henc, Option.some.injEq] at hrb
  subst hrb
  have hout31 : out.length < 2 ^ 31 := by
    simp only [List.length_append] at hlen
    omega
  apply Vec.readsBack
  · intro r hr
    apply Record.readsBack_of_fits (h r hr)
    intro bs hbs
    have := length_le_of_encodeAll hout hr hbs
    omega
  · have := length_le_length_encodeAll hout fun r _ e he => Record.encode_ne_nil he
    omega

/-- A batch of records the codec carries, encoded in fewer than `2 ^ 31` bytes, decodes back. -/
theorem Batch.memory_decode_encode [Crc32c] {b : Batch MemoryRecords} (h : ∀ r ∈ b.records, r.Fits)
    (hfit : ∀ bb, Encoder.encode b = some bb → bb.length < 2 ^ 31) :
    ∃ bb b', Encoder.encode b = some bb ∧ ReadsExactly bufferLimit Batch.decode bb b' ∧
      b.DecodesTo b' := by
  obtain ⟨out, -, hrb⟩ := MemoryRecords.encode_eq h
  obtain ⟨crc, henc⟩ := Batch.encode_eq (MemoryRecords.sizeAgrees b.records) hrb
  have hlen := hfit _ henc
  simp only [List.length_append, FixedWidth.length_put, Batch.length_headBytes, batchFileHeaderSize,
    batchPreambleSize] at hlen
  have hne : u32Width.put (UInt32.ofNat b.records.length) ++ out ≠ [] := by
    intro hnil
    simpa using congrArg List.length hnil
  apply Batch.decode_encode (MemoryRecords.sizeAgrees b.records)
    (MemoryRecords.readsBack h hrb (by simp only [List.length_append, FixedWidth.length_put]; omega))
    hrb hne
  simp only [List.length_append, FixedWidth.length_put]
  omega

theorem Batch.memory_encode_isSome [Crc32c] {b : Batch MemoryRecords} (h : ∀ r ∈ b.records, r.Fits) :
    (Encoder.encode b).isSome := by
  obtain ⟨out, -, hrb⟩ := MemoryRecords.encode_eq h
  obtain ⟨crc, henc⟩ := Batch.encode_eq (MemoryRecords.sizeAgrees b.records) hrb
  exact Option.isSome_iff_exists.mpr ⟨_, henc⟩

/-- Every element on the right of a `Forall₂` has a partner on the left. -/
theorem exists_of_forall₂_of_mem {α β : Type} {P : α → β → Prop} {l₁ : List α} {l₂ : List β}
    (h : List.Forall₂ P l₁ l₂) {y : β} (hy : y ∈ l₂) : ∃ x ∈ l₁, P x y := by
  induction h with
  | nil => simp at hy
  | @cons x y' xs ys hxy _ ih =>
    rcases List.mem_cons.mp hy with rfl | hmem
    · exact ⟨x, List.mem_cons_self, hxy⟩
    · obtain ⟨z, hz, hzy⟩ := ih hmem
      exact ⟨z, List.mem_cons_of_mem x hz, hzy⟩

/-- Two batches: one plain, one with the schema flag and a keyed record. -/
def sampleSet : RecordSet MemoryRecords :=
  ⟨[⟨0, 0, { (default : BatchHeader) with lastOffsetDelta := 0 }, 0,
      [⟨⟨0, 0, 0⟩, none, ⟨[0x74, 0x65]⟩, 0⟩]⟩,
    ⟨1, 0, { (default : BatchHeader) with attributes := 0x10, lastOffsetDelta := 1 }, 7,
      [⟨⟨0, 5, 0⟩, some ⟨[0x6b]⟩, ⟨[0x76]⟩, 0⟩, ⟨⟨0, -3, 1⟩, none, ⟨[]⟩, 2⟩]⟩]⟩

/-- One record whose timestamp delta is `2 ^ 31`, just past the `i32` values. -/
def wideDeltaSet : RecordSet MemoryRecords :=
  ⟨[⟨0, 0, { (default : BatchHeader) with lastOffsetDelta := 0 }, 0,
    [⟨⟨0, 2147483648, 0⟩, none, ⟨[0x61]⟩, 0⟩]⟩]⟩

end Fluvio.Protocol
