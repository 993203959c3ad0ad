import Fluvio.Protocol.RoundTrip

/-!
`write_size` against `encode` for batches and record sets.

`Batch::write_size` is `BATCH_FILE_HEADER_SIZE + records.write_size()`, while
`Batch::encode` also writes the four bytes of the schema id when the header flags
one. So the two agree exactly on the batches without the flag
(`Batch.sizeAgreesAt`) and `write_size` is four bytes short on the others
(`Batch.encode_length_eq`), and a record set's `write_size`, the sum of its
batches', is short by four bytes per flagged batch. Every other encoder of the
format announces its length exactly (`Vec.sizeAgrees`, `Option.sizeAgreesAt`,
`RecordData.sizeAgrees`, `Record.sizeAgrees`, `MemoryRecords.sizeAgrees`,
`RawRecords.sizeAgrees`).
-/

namespace Fluvio.Protocol

open Cursor

theorem RawRecords.sizeAgrees : SizeAgrees RawRecords := fun _ => rfl

section Batch

variable {R : Type} [Encoder R] [Crc32c]

/-- What `Batch::encode` writes is the size `Batch::write_size` announces plus the
schema id's bytes. -/
theorem Batch.encode_length_eq {b : Batch R} (h : SizeAgreesAt b.records) :
    (Encoder.encode b).map List.length = (Encoder.writeSize b).map (· + b.schemaBytes.length) := by
  cases hr : Encoder.encode b.records with
  | none =>
    have hws : Encoder.writeSize b.records = none := by rw [h, hr]; rfl
    have hcalc : b.calcBatchLen = none := by simp [Batch.calcBatchLen, hws]
    show (Batch.encode b).map List.length = (Batch.writeSize b).map _
    simp [Batch.encode, Batch.writeSize, hcalc, hws]
  | some rb =>
    have hws : Encoder.writeSize b.records = some rb.length := by rw [h, hr]; rfl
    obtain ⟨crc, henc⟩ := Batch.encode_eq h hr
    show (Batch.encode b).map List.length = (Batch.writeSize b).map _
    rw [henc]
    simp [Batch.writeSize, hws]
    omega

/-- Without the schema flag, `Batch::write_size` is the length of the encoding. -/
theorem Batch.sizeAgreesAt {b : Batch R} (h : SizeAgreesAt b.records)
    (hs : b.header.hasSchema = false) : SizeAgreesAt b := by
  have hnil : b.schemaBytes = [] := by simp [Batch.schemaBytes, hs]
  have hlen := Batch.encode_length_eq h
  rw [hnil, List.length_nil] at hlen
  show Encoder.writeSize b = (Encoder.encode b).map List.length
  simpa using hlen.symm

end Batch

/-- A record set's `write_size` is its length when every batch's is. -/
theorem RecordSet.sizeAgreesAt {R : Type} [Encoder R] [Crc32c] {rs : RecordSet R}
    (h : ∀ b ∈ rs.batches, SizeAgreesAt b) : SizeAgreesAt rs := by
  show rs.batches.foldl addWriteSize (some 4) = (RecordSet.encode rs).map List.length
  rw [foldl_addWriteSize h]
  cases hall : encodeAll rs.batches <;> simp [RecordSet.encode, hall]

/-- A batch with the schema flag and one record. -/
def schemaBatch : Batch MemoryRecords :=
  ⟨0, 0, { (default : BatchHeader) with attributes := 0x10, lastOffsetDelta := 0 }, 1,
    [⟨⟨0, 0, 0⟩, none, ⟨[0x61]⟩, 0⟩]⟩

theorem schemaBatch_writeSize_short :
    Encoder.writeSize schemaBatch = some 69 ∧ (Encoder.encode schemaBatch).map List.length = some 73 := by
  constructor <;> decide +kernel

end Fluvio.Protocol
