import Fluvio.Protocol.Sizes

/-!
What the decoders do with bytes that are not a whole encoding.

A record set cut inside a batch — as the leader's and the stream-fetch slices
are, at `max_bytes` — is still decoded with `Ok`, and the cut batch is not
always dropped:

* `RecordSet.decode_cut_at_records` — cut right after a batch's header and schema
  id, the record set decodes to that batch with no records: `Batch::decode`
  skips the records when no byte is left for them, whatever `batch_len` says;
* `RecordSet.decode_cut_raw` — with `RawRecords`, cut anywhere inside the records,
  it decodes to that batch holding the bytes before the cut.

Lengths read from the input are used before they are checked:

* `Batch.decode_short_batchLen` — a `batch_len` below the header and schema id
  panics on `batch_len as usize - BATCH_HEADER_SIZE` (or the `- 4` after it), and
  `RecordSet.decode_first_panic` passes the panic on, as the batch loop stops only
  on `io::Error`;
* `RecordData.decode_negative_length` and `varintDecode_panics_on_long_input`, in
  their own modules, are the panics of a negative data length and of an eleventh
  varint byte.
-/

namespace Fluvio.Protocol

open Cursor

/-! ### Cuts -/

theorem Batch.decodeRecords_nil {R : Type} [Decoder R] [Inhabited R] (n : Nat) :
    Batch.decodeRecords (R := R) n [] = .ok default [] := by
  simp [Batch.decodeRecords, Decoder.limit]

/-- The raw records of a batch are whatever bytes its length leaves, however few. -/
theorem Batch.decodeRecords_raw {n : Nat} {s : List UInt8} (hne : s ≠ []) (hle : s.length ≤ n) :
    Batch.decodeRecords (R := RawRecords) n s = .ok ⟨s⟩ [] := by
  have hpos : 0 < s.length := List.length_pos_iff.mpr hne
  simp [Batch.decodeRecords, Decoder.limit, List.take_of_length_le hle, List.drop_of_length_le hle,
    hpos, Decoder.decode, RawRecords.decode]

/-- A record set whose body is bytes the batch decoder reads to their end, as one batch. -/
theorem RecordSet.decode_single {R : Type} [Decoder R] [Inhabited R] {body : List UInt8}
    {b : Batch R} (hb : Batch.decode body = .ok b []) (hne : body ≠ []) (hlen : body.length < 2 ^ 31) :
    RecordSet.decode (i32Width.put (Int32.ofNat body.length) ++ body) = .ok ⟨[b]⟩ [] := by
  have hhead : (Decoder.decode : Decode Int32) (i32Width.put (Int32.ofNat body.length) ++ body) =
      .ok (Int32.ofNat body.length) body := FixedWidth.get_put_apply _ _ _ _
  have hpos : 0 < body.length := List.length_pos_iff.mpr hne
  obtain ⟨m, hm⟩ : ∃ m, body.length = m + 1 := ⟨body.length - 1, by omega⟩
  have hloop : RecordSet.decodeBatches body.length [] body = .ok [b] [] := by
    rw [hm, RecordSet.decodeBatches]
    simp [hpos, hb, RecordSet.decodeBatches_nil]
  simp [RecordSet.decode, hhead, Int32.asUsize_ofNat hlen, Decoder.limit, hloop]

/-- A panic in the first batch is the record set's: the loop stops only on `io::Error`. -/
theorem RecordSet.decode_first_panic {R : Type} [Decoder R] [Inhabited R] {body rest : List UInt8}
    {msg : String} (hb : (Batch.decode : Decode (Batch R)) body = .error (.panic msg) rest)
    (hne : body ≠ []) (hlen : body.length < 2 ^ 31) :
    (RecordSet.decode : Decode (RecordSet R)) (i32Width.put (Int32.ofNat body.length) ++ body) =
      .error (.panic msg) rest := by
  have hhead : (Decoder.decode : Decode Int32) (i32Width.put (Int32.ofNat body.length) ++ body) =
      .ok (Int32.ofNat body.length) body := FixedWidth.get_put_apply _ _ _ _
  have hpos : 0 < body.length := List.length_pos_iff.mpr hne
  obtain ⟨m, hm⟩ : ∃ m, body.length = m + 1 := ⟨body.length - 1, by omega⟩
  have hloop : RecordSet.decodeBatches (R := R) body.length [] body = .error (.panic msg) rest := by
    rw [hm, RecordSet.decodeBatches]
    simp [hpos, hb]
  simp [RecordSet.decode, hhead, Int32.asUsize_ofNat hlen, Decoder.limit, hloop]

section Cut

variable {R : Type}

theorem Batch.length_schemaBytes_le (b : Batch R) : b.schemaBytes.length ≤ schemaIdSize := by
  unfold Batch.schemaBytes
  split <;> simp [schemaIdSize, u32Width]

theorem Batch.take_headBytes_append (b : Batch R) (crc : UInt32) (n j : Nat) (rb : List UInt8) :
    (b.headBytes crc n ++ rb).take (batchFileHeaderSize + b.schemaBytes.length + j) =
      b.headBytes crc n ++ rb.take j := by
  rw [← Batch.length_headBytes b crc n, List.take_length_add_append]

theorem Batch.headBytes_ne_nil (b : Batch R) (crc : UInt32) (n : Nat) : b.headBytes crc n ≠ [] := by
  apply List.ne_nil_of_length_pos
  rw [Batch.length_headBytes]
  unfold batchFileHeaderSize batchPreambleSize
  omega

/-- A record set cut right after a batch's header and schema id decodes, with `Ok`, to that
batch with default records. -/
theorem RecordSet.decode_cut_at_records [Crc32c] [Encoder R] [Decoder R] [Inhabited R] {b : Batch R}
    {rb : List UInt8} (hsize : SizeAgreesAt b.records) (hr : Encoder.encode b.records = some rb)
    (hfit : batchHeaderSize + rb.length + b.schemaBytes.length < 2 ^ 31) :
    ∃ bb crc, Encoder.encode b = some bb ∧
      (RecordSet.decode : Decode (RecordSet R))
        (i32Width.put (Int32.ofNat (batchFileHeaderSize + b.schemaBytes.length)) ++
          bb.take (batchFileHeaderSize + b.schemaBytes.length)) =
        .ok ⟨[b.decodedHead crc rb.length default]⟩ [] := by
  obtain ⟨crc, henc⟩ := Batch.encode_eq hsize hr
  refine ⟨_, crc, henc, ?_⟩
  have htake := Batch.take_headBytes_append b crc rb.length 0 rb
  rw [Nat.add_zero, List.take_zero, List.append_nil] at htake
  have hdec := Batch.decode_headBytes b crc hfit []
  rw [List.append_nil, Batch.decodeRecords_nil] at hdec
  have hlen := RecordSet.decode_single hdec (Batch.headBytes_ne_nil b crc rb.length) (by
    have := Batch.length_schemaBytes_le b
    simp only [Batch.length_headBytes, batchFileHeaderSize, batchPreambleSize, batchHeaderSize,
      schemaIdSize] at this ⊢
    omega)
  rw [htake, ← Batch.length_headBytes b crc rb.length]
  exact hlen

/-- With raw records, a record set cut inside a batch's records decodes, with `Ok`, to that
batch holding the records cut short. -/
theorem RecordSet.decode_cut_raw [Crc32c] {b : Batch RawRecords} {j : Nat} (hj : 0 < j)
    (hjlt : j < b.records.bytes.length)
    (hfit : batchFileHeaderSize + b.records.bytes.length + b.schemaBytes.length < 2 ^ 31) :
    ∃ bb crc, Encoder.encode b = some bb ∧
      (RecordSet.decode : Decode (RecordSet RawRecords))
        (i32Width.put (Int32.ofNat (batchFileHeaderSize + b.schemaBytes.length + j)) ++
          bb.take (batchFileHeaderSize + b.schemaBytes.length + j)) =
        .ok ⟨[b.decodedHead crc b.records.bytes.length ⟨b.records.bytes.take j⟩]⟩ [] := by
  have hraw : Encoder.encode b.records = some b.records.bytes := rfl
  obtain ⟨crc, henc⟩ := Batch.encode_eq (RawRecords.sizeAgrees b.records) hraw
  refine ⟨_, crc, henc, ?_⟩
  have hcut : b.records.bytes.take j ≠ [] := by
    apply List.ne_nil_of_length_pos
    rw [List.length_take]
    omega
  have hfit' : batchHeaderSize + b.records.bytes.length + b.schemaBytes.length < 2 ^ 31 := by
    unfold batchFileHeaderSize at hfit
    omega
  have hdec := Batch.decode_headBytes b crc hfit' (b.records.bytes.take j)
  rw [Batch.decodeRecords_raw hcut (by simp)] at hdec
  have hlen := RecordSet.decode_single hdec (by simp [Batch.headBytes_ne_nil]) (by
    simp only [List.length_append, Batch.length_headBytes, List.length_take]
    omega)
  rw [Batch.take_headBytes_append]
  rw [List.length_append, Batch.length_headBytes, List.length_take, Nat.min_eq_left hjlt.le] at hlen
  exact hlen

end Cut

/-- A one-record batch, for the cut below. -/
def cutSet : RecordSet MemoryRecords :=
  ⟨[{ (default : Batch MemoryRecords) with
      header := { (default : BatchHeader) with lastOffsetDelta := 0 },
      records := [{ preamble := default, key := none, value := ⟨[1, 2, 3]⟩, headers := 0 }] }]⟩

/-- Cut at 57 bytes, the end of its header, the set's one batch — which says it holds one
record — comes back with none, where the whole batches within the cut are none. -/
theorem cutSet_decodes_batch_without_records :
    (Encoder.encode cutSet).map (fun bytes =>
      ((RecordSet.decode : Decode (RecordSet MemoryRecords))
          (i32Width.put 57 ++ (bytes.drop 4).take 57)).map fun rs =>
        rs.batches.map fun b => (b.recordsLen, b.records.length)) =
      some (.ok [(1, 0)] []) := by
  decide +kernel

/-! ### Lengths trusted before they are checked -/

section Short

variable {R : Type} [Decoder R] [Inhabited R]

/-- The bytes before a batch's records as the batch itself has them, `batch_len` included. -/
def Batch.fileHeadBytes (b : Batch R) : List UInt8 :=
  i64Width.put b.baseOffset ++ i32Width.put b.batchLen ++ b.header.bytes ++ b.schemaBytes

omit [Decoder R] [Inhabited R] in
@[simp] theorem Batch.length_fileHeadBytes (b : Batch R) :
    b.fileHeadBytes.length = batchFileHeaderSize + b.schemaBytes.length := by
  simp [Batch.fileHeadBytes, batchFileHeaderSize, batchPreambleSize, i64Width, i32Width]
  omega

/-- A `batch_len` too small for the header and the schema id panics on the subtraction
that gives the records' length, whatever follows. -/
theorem Batch.decode_short_batchLen (b : Batch R)
    (hlen : Int32.asUsize b.batchLen < batchHeaderSize + b.schemaBytes.length) (s : List UInt8) :
    Batch.decode (R := R) (b.fileHeadBytes ++ s) =
      .error (.panic "attempt to subtract with overflow") s := by
  have hbase : ∀ rest, (Decoder.decode : Decode Int64) (i64Width.put b.baseOffset ++ rest) =
      .ok b.baseOffset rest := FixedWidth.get_put_apply i64Width _ _
  have hbatchLen : ∀ rest, (Decoder.decode : Decode Int32) (i32Width.put b.batchLen ++ rest) =
      .ok b.batchLen rest := FixedWidth.get_put_apply i32Width _ _
  simp only [Batch.fileHeadBytes, List.append_assoc]
  rw [Batch.decode, bind_ok (hbase _), bind_ok (hbatchLen _), bind_ok (BatchHeader.decode_bytes_apply _ _)]
  cases hs : b.header.hasSchema with
  | false =>
    have hnil : b.schemaBytes = [] := by simp [Batch.schemaBytes, hs]
    rw [hnil, List.length_nil, Nat.add_zero] at hlen
    simp only [Bool.false_eq_true, if_false, hnil, List.nil_append]
    rw [bind_error (usizeSub_of_lt hlen _)]
  | true =>
    have hsid : b.schemaBytes = u32Width.put b.schemaId := by simp [Batch.schemaBytes, hs]
    have hsize : b.schemaBytes.length = schemaIdSize := by rw [hsid]; rfl
    have hsidDec : ∀ rest, (Decoder.decode : Decode UInt32) (u32Width.put b.schemaId ++ rest) =
        .ok b.schemaId rest := FixedWidth.get_put_apply u32Width _ _
    simp only [if_true, hsid]
    rw [bind_ok (hsidDec _)]
    -- the first subtraction panics below the header, the second below the schema id
    by_cases h45 : Int32.asUsize b.batchLen < batchHeaderSize
    · rw [bind_error (usizeSub_of_lt h45 _)]
    · rw [bind_ok (usizeSub_of_le (Nat.le_of_not_lt h45) _),
        bind_error (usizeSub_of_lt (by rw [hsize] at hlen; omega) _)]

/-- A record set whose first batch has a short `batch_len` panics. -/
theorem RecordSet.decode_short_batchLen (b : Batch R)
    (hlen : Int32.asUsize b.batchLen < batchHeaderSize + b.schemaBytes.length) (s : List UInt8)
    (hfit : (b.fileHeadBytes ++ s).length < 2 ^ 31) :
    (RecordSet.decode : Decode (RecordSet R))
        (i32Width.put (Int32.ofNat (b.fileHeadBytes ++ s).length) ++ (b.fileHeadBytes ++ s)) =
      .error (.panic "attempt to subtract with overflow") s := by
  have hne : b.fileHeadBytes ++ s ≠ [] := by
    apply List.ne_nil_of_length_pos
    rw [List.length_append, Batch.length_fileHeadBytes]
    unfold batchFileHeaderSize batchPreambleSize
    omega
  exact RecordSet.decode_first_panic (Batch.decode_short_batchLen b hlen s) hne hfit

end Short

/-- Fifty-seven zero bytes: a batch whose `batch_len` is 0. -/
theorem zeroBatch_decode_panics :
    (RecordSet.decode : Decode (RecordSet MemoryRecords)) (i32Width.put 57 ++ List.replicate 57 0) =
      .error (.panic "attempt to subtract with overflow") [] := by
  decide +kernel

end Fluvio.Protocol
