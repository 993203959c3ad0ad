import Fluvio.Storage.Segment

/-!
Reading a segment's log file back and repairing it after a crash (`fluvio-storage`:
`file.rs`, `batch.rs`, `validator.rs`, `segment.rs`).

`FileBatchPos::read_from` reads the 57 bytes of a batch's preamble and header,
decodes them, and reads the `batch_len - BATCH_HEADER_SIZE` bytes that follow; fewer
bytes than asked for are a `BatchHeaderError`, which the validator takes as a
recoverable end of the log. `LogValidator` reads batch after batch, remembering the
last offset and the file position after the last batch it read in full; when the
loop ends on a `BatchHeaderError`, `MutableSegment::validate_and_repair` truncates
the file there, and the segment's end offset becomes one past the last offset read.

Positions are `u32` in the source; the model keeps them as `Nat`, which is the same
below 4 GiB.
-/

namespace Fluvio.Storage

open Fluvio.Protocol Cursor

/-- `FileBytesIterator::read_bytes` at `pos`: the bytes read and the new position. A read of
nothing succeeds; a read at the end of the file gives `None`; otherwise the position moves
by the length asked for, however many bytes there were. -/
def readBytes (file : List UInt8) (pos len : Nat) : Option (List UInt8) × Nat :=
  if len = 0 then (some [], pos)
  else if file.length ≤ pos then (none, pos)
  else (some ((file.drop pos).take len), pos + len)

/-- `BatchHeaderError`. -/
inductive BatchHeaderError
  | notEnoughHeader (pos actualLen expectedLen : Nat)
  | notEnoughContent (header : BatchHeader) (baseOffset : Int64) (pos actualLen expectedLen : Nat)
deriving DecidableEq, Repr

/-- Why reading a batch from the file failed: a `BatchHeaderError`, another `io::Error`, or
a panic. -/
inductive ReadError
  | header (e : BatchHeaderError)
  | io
  | panic (msg : String)
deriving DecidableEq, Repr

/-- `FileEmptyRecords`: the validator reads no record. -/
structure FileEmptyRecords where
deriving DecidableEq, Repr, Inhabited

/-- `FileBatchPos<FileEmptyRecords>`: a batch's preamble and header and where it starts. -/
structure FileBatchPos where
  inner : Batch FileEmptyRecords
  pos : Nat
deriving DecidableEq, Repr

/-- `Batch::decode_from_file_buf`: the preamble and the header. -/
def decodeFromFileBuf : Decode (Int64 × Int32 × BatchHeader) := do
  let baseOffset ← (Decoder.decode : Decode Int64)
  let batchLen ← (Decoder.decode : Decode Int32)
  let header ← BatchHeader.decode
  pure (baseOffset, batchLen, header)

/-- `FileBatchPos::read_from`: the next batch at `pos`, or `None` at the end of the file, and
the position the iterator is left at. -/
def readFrom (file : List UInt8) (pos : Nat) : Except ReadError (Option FileBatchPos) × Nat :=
  match readBytes file pos batchFileHeaderSize with
  | (none, p) => (.ok none, p)
  | (some bytes, p) =>
    if bytes.length < batchFileHeaderSize then
      (.error (.header (.notEnoughHeader pos bytes.length batchFileHeaderSize)), p)
    else
      match decodeFromFileBuf bytes with
      | .error _ _ => (.error .io, p)
      | .ok (baseOffset, batchLen, header) _ =>
        -- `batch.batch_len as usize - BATCH_HEADER_SIZE`
        if Int32.asUsize batchLen < batchHeaderSize then
          (.error (.panic "attempt to subtract with overflow"), p)
        else
          let contentLen := Int32.asUsize batchLen - batchHeaderSize
          -- `file.read_bytes(content_len as u32)`
          match readBytes file p (contentLen % 2 ^ 32) with
          | (none, p') => (.error (.header (.notEnoughContent header baseOffset pos 0 contentLen)), p')
          | (some content, p') =>
            if content.length < contentLen then
              (.error (.header (.notEnoughContent header baseOffset pos content.length contentLen)), p')
            else (.ok (some ⟨⟨baseOffset, batchLen, header, 0, ⟨⟩⟩, pos⟩), p')

/-- `LogValidationError`. -/
inductive LogValidationError
  | batchDecoding (e : BatchHeaderError)
  | invalidBaseOffsetMinimum (invalidBatchOffset : Int64)
deriving DecidableEq, Repr

/-- `LogValidator`, without the index check, which only records an `index_error` nothing
reads. -/
structure LogValidator where
  baseOffset : Int64
  batches : Nat
  lastValidOffset : Int64
  lastValidBatchPos : Nat
  lastValidFilePos : Nat
  error : Option LogValidationError
deriving DecidableEq, Repr

/-- The loop of `validate_with_stream`, for at most `fuel` more batches: the validator, and how
the loop ended. Each batch moves the position by at least its 57-byte header, so the file's
length is enough fuel. -/
def LogValidator.validateStream (file : List UInt8) :
    Nat → LogValidator → Nat → LogValidator × Except ReadError Unit
  | 0, val, _ => (val, .ok ())
  | fuel + 1, val, pos =>
    match readFrom file pos with
    | (.error e, _) => (val, .error e)
    | (.ok none, _) => (val, .ok ())
    | (.ok (some batchPos), pos') =>
      let batch := batchPos.inner
      if batch.baseOffset < val.baseOffset then
        ({ val with error := some (.invalidBaseOffsetMinimum batch.baseOffset) }, .ok ())
      else
        validateStream file fuel
          { val with
            lastValidOffset := batch.baseOffset + batch.header.lastOffsetDelta.toInt64
            lastValidBatchPos := batchPos.pos
            lastValidFilePos := pos'
            batches := val.batches + 1 }
          pos'

/-- `LogValidator::validate_core` on a file whose name gives `base_offset`: a
`BatchHeaderError` becomes the validator's recoverable error. -/
def LogValidator.validate (file : List UInt8) (baseOffset : Int64) : Except ReadError LogValidator :=
  match LogValidator.validateStream file (file.length + 1) ⟨baseOffset, 0, -1, 0, 0, none⟩ 0 with
  | (val, .ok ()) => .ok val
  | (val, .error (.header e)) => .ok { val with error := some (.batchDecoding e) }
  | (_, .error e) => .error e

/-- `LogValidator::leo`. -/
def LogValidator.leo (val : LogValidator) : Int64 :=
  if val.lastValidOffset = -1 then val.baseOffset else val.lastValidOffset + 1

/-- `MutableSegment::open_for_write` on a log file holding `bytes`: a new index, and the end
offset at the base until validation. -/
def MutableSegment.openForWrite (baseOffset : Int64) (bytes : List UInt8) (segmentMaxBytes : Nat) :
    MutableSegment :=
  ⟨baseOffset, baseOffset, ⟨baseOffset, bytes, segmentMaxBytes⟩, ⟨0⟩⟩

/-- Why `validate_and_repair` fails: the validation could not run, or found an error it
cannot repair. -/
inductive RepairError
  | read (e : ReadError)
  | validation (e : LogValidationError)
deriving DecidableEq, Repr

/-- `MutableSegment::validate_and_repair`: the end offset, with the file truncated after the
last batch read in full when the validation ended on a `BatchHeaderError`. -/
def MutableSegment.validateAndRepair (seg : MutableSegment) : Except RepairError Int64 × MutableSegment :=
  match LogValidator.validate seg.msgLog.bytes seg.baseOffset with
  | .error e => (.error (.read e), seg)
  | .ok val =>
    match val.error with
    | some (.batchDecoding _) =>
      -- `self.msg_log.set_len(validation.last_valid_file_pos)`
      let seg := { seg with msgLog := { seg.msgLog with bytes := seg.msgLog.bytes.take val.lastValidFilePos } }
      (.ok val.leo, { seg with endOffset := val.leo })
    | some e => (.error (.validation e), seg)
    | none => (.ok val.leo, { seg with endOffset := val.leo })

end Fluvio.Storage
