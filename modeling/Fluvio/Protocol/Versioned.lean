import Fluvio.Protocol.Containers

/-!
The protocol version of the Fluvio codec (`fluvio-protocol/src/core/encoder.rs` and `decoder.rs`,
the version checks `fluvio-protocol-derive/src/ast/prop.rs` puts around a derived struct's fields,
and `RequestHeader` and `RequestMessage` of `fluvio-protocol/src/api`).

Every `write_size`, `encode` and `decode` of the source takes a `version` and hands it down to the
values inside. The codecs of `Fluvio.Protocol.Core` and `Fluvio.Protocol.Containers` ignore it. A
derived struct writes a field marked `#[fluvio(min_version = .., max_version = ..)]` only at the
versions in its range and reads it only there; decoding into a default value leaves the field at its
default elsewhere. A request travels behind a `RequestHeader` that carries its version, and the
receiver decodes the request at the version the header names.

* `FieldVersions.readsBackAt` — a guarded field reads back at every version: as what its value
  reads back as inside its range, as its default outside.
* `RequestMessage.readsBackAt` — a request message reads back with its header, and with its request
  as the request reads back at the header's version.
-/

namespace Fluvio.Protocol

open Cursor

/-- `Version`: the protocol version a value is written and read at. -/
abbrev Version := Int16

/-- The `Encoder` trait with its version: `write_size(version)` and `encode(dest, version)`. -/
class VersionedEncoder (α : Type) where
  writeSizeAt : Version → α → Option Nat
  encodeAt : Version → α → Option (List UInt8)

/-- The `Decoder` trait with its version, decoding into a default value. -/
class VersionedDecoder (α : Type) where
  decodeAt : Version → Decode α

export VersionedEncoder (writeSizeAt encodeAt)
export VersionedDecoder (decodeAt)

variable {α M : Type}

/-- The encoder at one version, as the encoders of `Fluvio.Protocol.Core` are. -/
@[reducible] def VersionedEncoder.at [VersionedEncoder α] (version : Version) : Encoder α :=
  ⟨writeSizeAt version, encodeAt version⟩

/-- The decoder at one version. -/
@[reducible] def VersionedDecoder.at [VersionedDecoder α] (version : Version) : Decoder α :=
  ⟨decodeAt version⟩

/-- A codec of `Fluvio.Protocol.Core`, which writes the same at every version. -/
instance (priority := low) VersionedEncoder.ofEncoder [Encoder α] : VersionedEncoder α :=
  ⟨fun _ => writeSize, fun _ => encode⟩

/-- A codec of `Fluvio.Protocol.Core`, which reads the same at every version. -/
instance (priority := low) VersionedDecoder.ofDecoder [Decoder α] : VersionedDecoder α :=
  ⟨fun _ => Decoder.decode⟩

/-- `Vec<M>` hands its version to its elements. -/
instance [VersionedEncoder M] : VersionedEncoder (List M) where
  writeSizeAt version := letI : Encoder M := VersionedEncoder.at version; vecWriteSize
  encodeAt version := letI : Encoder M := VersionedEncoder.at version; vecEncode

instance [VersionedDecoder M] : VersionedDecoder (List M) where
  decodeAt version := letI : Decoder M := VersionedDecoder.at version; vecDecode

/-- `Option<M>` hands its version to its value. -/
instance [VersionedEncoder M] : VersionedEncoder (Option M) where
  writeSizeAt version := letI : Encoder M := VersionedEncoder.at version; writeSize
  encodeAt version := letI : Encoder M := VersionedEncoder.at version; encode

instance [VersionedDecoder M] : VersionedDecoder (Option M) where
  decodeAt version := letI : Decoder M := VersionedDecoder.at version; Decoder.decode

/-! ### Reading back at a version -/

/-- Decoding at `version` the bytes `x` encodes to at `version` gives `y`. -/
def ReadsBackAt [VersionedEncoder α] [VersionedDecoder α] (version : Version) (x y : α) : Prop :=
  ReadsWrite bufferLimit (decodeAt version) (encodeAt version x) y

/-- At `version`, the size `write_size` announces for `x` is the length of its encoding. -/
def SizeAgreesIn [VersionedEncoder α] (version : Version) (x : α) : Prop :=
  writeSizeAt version x = (encodeAt version x).map List.length

/-- At `version`, the encoder of `x` finishes. -/
def EncodesAt [VersionedEncoder α] (version : Version) (x : α) : Prop := (encodeAt version x).isSome

theorem ReadsBack.readsBackAt [Encoder α] [Decoder α] {x : α} (h : ReadsBack x) (version : Version) :
    ReadsBackAt version x x :=
  h

theorem SizeAgreesAt.sizeAgreesIn [Encoder α] {x : α} (h : SizeAgreesAt x) (version : Version) :
    SizeAgreesIn version x :=
  h

/-- A vector of fewer than `2 ^ 31` elements reads back at a version as its elements do. -/
theorem Vec.readsBackAt [VersionedEncoder M] [VersionedDecoder M] {version : Version} {xs : List M}
    (f : M → M) (h : ∀ x ∈ xs, ReadsBackAt version x (f x)) (hlen : xs.length < 2 ^ 31) :
    ReadsBackAt version xs (xs.map f) :=
  letI : Encoder M := VersionedEncoder.at version
  letI : Decoder M := VersionedDecoder.at version
  Vec.readsWrite_map f h hlen

theorem Vec.encodesAt [VersionedEncoder M] {version : Version} {xs : List M}
    (h : ∀ x ∈ xs, EncodesAt version x) : EncodesAt version xs :=
  letI : Encoder M := VersionedEncoder.at version
  Vec.encode_isSome h

theorem Vec.sizeAgreesIn [VersionedEncoder M] {version : Version} {xs : List M}
    (h : ∀ x ∈ xs, SizeAgreesIn version x) : SizeAgreesIn version xs :=
  letI : Encoder M := VersionedEncoder.at version
  Vec.sizeAgreesAt h

/-- An option reads back at a version as its value does. -/
theorem Option.readsBackAt [VersionedEncoder M] [VersionedDecoder M] {version : Version} {x : Option M}
    (f : M → M) (h : ∀ v, x = some v → ReadsBackAt version v (f v)) : ReadsBackAt version x (x.map f) :=
  letI : Encoder M := VersionedEncoder.at version
  letI : Decoder M := VersionedDecoder.at version
  Option.readsWrite_map f h

theorem Option.encodesAt [VersionedEncoder M] {version : Version} {x : Option M}
    (h : ∀ v, x = some v → EncodesAt version v) : EncodesAt version x :=
  letI : Encoder M := VersionedEncoder.at version
  Option.encode_isSome h

theorem Option.sizeAgreesIn [VersionedEncoder M] {version : Version} {x : Option M}
    (h : ∀ v, x = some v → SizeAgreesIn version v) : SizeAgreesIn version x :=
  letI : Encoder M := VersionedEncoder.at version
  Option.sizeAgreesAt h

/-! ### Fields with a version range -/

/-- `#[fluvio(min_version = min, max_version = max)]` on a field; a field without it has
`min_version` 0 and no maximum. -/
structure FieldVersions where
  min : Version
  max : Option Version
deriving DecidableEq, Repr

/-- The check the derive puts around a field: `(min..=max).contains(&version)`, or
`version >= min` when there is no maximum. -/
def FieldVersions.contains (r : FieldVersions) (version : Version) : Bool :=
  match r.max with
  | some max => decide (r.min ≤ version ∧ version ≤ max)
  | none => decide (r.min ≤ version)

theorem FieldVersions.contains_iff {r : FieldVersions} {version : Version} :
    r.contains version = true ↔ r.min.toInt ≤ version.toInt ∧ ∀ max ∈ r.max, version.toInt ≤ max.toInt := by
  unfold FieldVersions.contains
  cases r.max <;> simp [Int16.le_iff_toInt_le]

/-- What a guarded field holds after the round trip: `y` inside the range, the default outside. -/
def FieldVersions.keep [Inhabited α] (r : FieldVersions) (version : Version) (y : α) : α :=
  if r.contains version then y else default

theorem FieldVersions.keep_of_contains [Inhabited α] {r : FieldVersions} {version : Version} {y : α}
    (h : r.contains version) : r.keep version y = y := by
  simp [FieldVersions.keep, h]

theorem FieldVersions.keep_of_not_contains [Inhabited α] {r : FieldVersions} {version : Version} {y : α}
    (h : r.contains version = false) : r.keep version y = default := by
  simp [FieldVersions.keep, h]

section Field

variable [VersionedEncoder α] (r : FieldVersions) (version : Version)

/-- `self.field.write_size(version)` inside the check, nothing outside it. -/
def FieldVersions.writeSize (x : α) : Option Nat :=
  if r.contains version then writeSizeAt version x else some 0

/-- `self.field.encode(dest, version)` inside the check, nothing outside it. -/
def FieldVersions.encode (x : α) : Option (List UInt8) :=
  if r.contains version then encodeAt version x else some []

/-- `self.field.decode(src, version)` inside the check; outside it the field keeps the value
of the default it is decoded into. -/
def FieldVersions.decode [VersionedDecoder α] [Inhabited α] : Decode α :=
  if r.contains version then decodeAt version else pure default

theorem FieldVersions.encode_isSome {x : α} (h : r.contains version → EncodesAt version x) :
    (r.encode version x).isSome := by
  unfold FieldVersions.encode
  split
  · next hin => exact h hin
  · rfl

theorem FieldVersions.sizeAgreesIn {x : α} (h : r.contains version → SizeAgreesIn version x) :
    r.writeSize version x = (r.encode version x).map List.length := by
  unfold FieldVersions.writeSize FieldVersions.encode
  split
  · next hin => exact h hin
  · rfl

/-- A guarded field reads back at every version: as its value reads back inside its range,
as the default outside it, where neither side touches the bytes. -/
theorem FieldVersions.readsBackAt [VersionedDecoder α] [Inhabited α] {x y : α}
    (h : r.contains version → ReadsBackAt version x y) :
    ReadsWrite bufferLimit (r.decode version) (r.encode version x) (r.keep version y) := by
  unfold FieldVersions.decode FieldVersions.encode FieldVersions.keep
  split
  · next hin => exact h hin
  · exact ReadsWrite.nil default

end Field

/-! ### Requests -/

/-- The constants of the `Request` trait: the API key, and the versions a request is sent at. -/
class Request (R : Type) where
  apiKey : UInt16
  defaultApiVersion : Int16
  minApiVersion : Int16
  maxApiVersion : Int16

/-- A request that keeps the trait's defaults for its range: `MIN_API_VERSION` is
`max(DEFAULT_API_VERSION - 2, 0)` and `MAX_API_VERSION` is `DEFAULT_API_VERSION`. -/
@[reducible] def Request.ofDefault {R : Type} (apiKey : UInt16) (defaultApiVersion : Int16) : Request R :=
  ⟨apiKey, defaultApiVersion, if defaultApiVersion - 2 > 0 then defaultApiVersion - 2 else 0, defaultApiVersion⟩

/-- `RequestHeader`. -/
structure RequestHeader where
  apiKey : UInt16
  apiVersion : Int16
  correlationId : Int32
  clientId : String
deriving DecidableEq, Repr

instance : Inhabited RequestHeader := ⟨⟨0, 0, 0, ""⟩⟩

/-- `RequestHeader::new`: the key, at version 1, with correlation id 1 and client id `"dummy"`. -/
def RequestHeader.new (apiKey : UInt16) : RequestHeader := ⟨apiKey, 1, 1, "dummy"⟩

/-- A field without version attributes: `min_version` 0 and no maximum. -/
def plain : FieldVersions := ⟨0, none⟩

theorem plain_contains {version : Version} (h : 0 ≤ version) : plain.contains version = true := by
  simp [plain, FieldVersions.contains, h]

/-- The derived `Encoder` of `RequestHeader`: its fields in order. -/
instance : VersionedEncoder RequestHeader where
  writeSizeAt version h := sumSizes [plain.writeSize version h.apiKey, plain.writeSize version h.apiVersion,
    plain.writeSize version h.correlationId, plain.writeSize version h.clientId]
  encodeAt version h := catWrites [plain.encode version h.apiKey, plain.encode version h.apiVersion,
    plain.encode version h.correlationId, plain.encode version h.clientId]

/-- The derived `Decoder` of `RequestHeader`. -/
instance : VersionedDecoder RequestHeader where
  decodeAt version := do
    let apiKey ← plain.decode version
    let apiVersion ← plain.decode version
    let correlationId ← plain.decode version
    let clientId ← plain.decode version
    pure ⟨apiKey, apiVersion, correlationId, clientId⟩

theorem RequestHeader.sizeAgreesIn (version : Version) (h : RequestHeader) : SizeAgreesIn version h := by
  show sumSizes [plain.writeSize version h.apiKey, plain.writeSize version h.apiVersion,
      plain.writeSize version h.correlationId, plain.writeSize version h.clientId] =
    (catWrites [plain.encode version h.apiKey, plain.encode version h.apiVersion,
      plain.encode version h.correlationId, plain.encode version h.clientId]).map List.length
  rw [plain.sizeAgreesIn version fun _ => (FixedWidth.sizeAgrees u16Width h.apiKey).sizeAgreesIn version,
    plain.sizeAgreesIn version fun _ => (FixedWidth.sizeAgrees i16Width h.apiVersion).sizeAgreesIn version,
    plain.sizeAgreesIn version fun _ => (FixedWidth.sizeAgrees i32Width h.correlationId).sizeAgreesIn version,
    plain.sizeAgreesIn version fun _ => (String.sizeAgrees h.clientId).sizeAgreesIn version]
  exact sumSizes_map_length [_, _, _, _]

theorem RequestHeader.encodesAt (version : Version) (h : RequestHeader) : EncodesAt version h :=
  catWrites_cons_isSome (plain.encode_isSome version fun _ => rfl) <|
  catWrites_cons_isSome (plain.encode_isSome version fun _ => rfl) <|
  catWrites_cons_isSome (plain.encode_isSome version fun _ => rfl) <|
  catWrites_cons_isSome (plain.encode_isSome version fun _ => rfl) rfl

/-- A header whose client id is shorter than `2 ^ 15` bytes reads back at every version from 0. -/
theorem RequestHeader.readsBackAt {version : Version} (hversion : 0 ≤ version) {h : RequestHeader}
    (hclient : h.clientId.utf8ByteSize < 2 ^ 15) : ReadsBackAt version h h := by
  have hread : ReadsBackAt version h ⟨plain.keep version h.apiKey, plain.keep version h.apiVersion,
      plain.keep version h.correlationId, plain.keep version h.clientId⟩ :=
    ReadsWrite.cons (plain.readsBackAt version fun _ => (u16Width.roundTrips _ h.apiKey).readsBackAt version) <|
    ReadsWrite.cons (plain.readsBackAt version fun _ => (i16Width.roundTrips _ h.apiVersion).readsBackAt version) <|
    ReadsWrite.cons (plain.readsBackAt version fun _ =>
      (i32Width.roundTrips _ h.correlationId).readsBackAt version) <|
    ReadsWrite.cons (plain.readsBackAt version fun _ => (String.readsBack hclient).readsBackAt version)
      (ReadsWrite.nil _)
  simpa only [FieldVersions.keep_of_contains (plain_contains hversion)] using hread

/-- `RequestMessage<R>`: a header and the request behind it. -/
structure RequestMessage (R : Type) where
  header : RequestHeader
  request : R
deriving DecidableEq, Repr

/-- `RequestMessage::new_request`: a header for the request's key, at its default version. -/
def RequestMessage.newRequest {R : Type} [Request R] (request : R) : RequestMessage R :=
  ⟨{ RequestHeader.new (Request.apiKey R) with apiVersion := Request.defaultApiVersion R }, request⟩

/-- `req_msg.header.set_correlation_id(correlation_id)`, as the multiplexer does before sending. -/
def RequestMessage.withCorrelationId {R : Type} (m : RequestMessage R) (correlationId : Int32) :
    RequestMessage R :=
  { m with header := { m.header with correlationId := correlationId } }

/-- `Encoder for RequestMessage<R>`: the header at the version given, the request at the version
the header names. -/
instance [VersionedEncoder R] : VersionedEncoder (RequestMessage R) where
  writeSizeAt version m := sumSizes [writeSizeAt version m.header, writeSizeAt m.header.apiVersion m.request]
  encodeAt version m := catWrites [encodeAt version m.header, encodeAt m.header.apiVersion m.request]

/-- `Decoder for RequestMessage<R>`: the header, then the request at the version it names. The
server's `ApiMessage::decode_from` does the same at version 0, its `api_decode!` reading the
request with `R::decode_from(src, header.api_version())`. -/
instance [VersionedDecoder R] : VersionedDecoder (RequestMessage R) where
  decodeAt version := do
    let header ← decodeAt version
    let request ← decodeAt header.apiVersion
    pure ⟨header, request⟩

section Message

variable {R : Type} [VersionedEncoder R]

theorem RequestMessage.sizeAgreesIn (version : Version) {m : RequestMessage R}
    (h : SizeAgreesIn m.header.apiVersion m.request) : SizeAgreesIn version m := by
  show sumSizes [writeSizeAt version m.header, writeSizeAt m.header.apiVersion m.request] =
    (catWrites [encodeAt version m.header, encodeAt m.header.apiVersion m.request]).map List.length
  rw [RequestHeader.sizeAgreesIn version m.header, h]
  exact sumSizes_map_length [_, _]

theorem RequestMessage.encodesAt (version : Version) {m : RequestMessage R}
    (h : EncodesAt m.header.apiVersion m.request) : EncodesAt version m :=
  catWrites_cons_isSome (RequestHeader.encodesAt version m.header) <| catWrites_cons_isSome h rfl

/-- A request message reads back at every version from 0 with its header, and with its request
as the request reads back at the header's version. -/
theorem RequestMessage.readsBackAt [VersionedDecoder R] {version : Version} (hversion : 0 ≤ version)
    {m : RequestMessage R} {y : R} (hclient : m.header.clientId.utf8ByteSize < 2 ^ 15)
    (h : ReadsBackAt m.header.apiVersion m.request y) : ReadsBackAt version m ⟨m.header, y⟩ :=
  ReadsWrite.cons (RequestHeader.readsBackAt hversion hclient) <| ReadsWrite.cons h (ReadsWrite.nil _)

end Message

end Fluvio.Protocol
