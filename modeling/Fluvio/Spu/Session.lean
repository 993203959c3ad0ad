import Fluvio.Spu.Schema

/-!
A client's session with the public API of an SPU (`fluvio-socket/src/versioned.rs`,
`fluvio-spu/src/services/public/api_versions.rs` and `fluvio-protocol/src/link/versions.rs`).

On connecting, the client sends an `ApiVersionsRequest` naming its build; the SPU answers with the
keys it serves and the range of versions it takes each at. For each request after that, the client
looks the request's key up (`Versions::lookup_version`) and sends the request at the smaller of its
own maximum and the SPU's; when no entry's range meets its own, it sends at its default version.
The SPU reads each request at the version its header names.

* `newRequest_version` — a request goes out at a version inside its own range and the server's when
  the server offers one that meets it, and at its default version otherwise.
* `streamFetch_session` — a client that names its build reads back, on the SPU, as it wrote the
  handshake; it then sends stream fetches at `COMMON_VERSION`, and the SPU reads each as it was
  sent but for the three fields the protocol dropped at version 19.
-/

namespace Fluvio.Spu

open Protocol Cursor

/-! ### The handshake -/

/-- `ApiVersionsRequest`: the client's build, from version 1 on. -/
structure ApiVersionsRequest where
  clientVersion : String
  clientOs : String
  clientArch : String

instance : Inhabited ApiVersionsRequest := ⟨⟨"", "", ""⟩⟩

namespace ApiVersionsRequest

/-- `#[fluvio(min_version = 1)]` on each of the three fields. -/
def fieldVersions : FieldVersions := ⟨1, none⟩

/-- `VERSIONS_API_KEY`. -/
def versionsApiKey : UInt16 := 18

/-- `V10_PLATFORM`, the version the handshake is sent at. -/
def v10Platform : Int16 := 2

/-- `Request for ApiVersionsRequest`. -/
instance : Request ApiVersionsRequest := Request.ofDefault versionsApiKey v10Platform

/-- The derived `Encoder` of `ApiVersionsRequest`. -/
instance : VersionedEncoder ApiVersionsRequest where
  writeSizeAt version r := sumSizes [fieldVersions.writeSize version r.clientVersion,
    fieldVersions.writeSize version r.clientOs, fieldVersions.writeSize version r.clientArch]
  encodeAt version r := catWrites [fieldVersions.encode version r.clientVersion,
    fieldVersions.encode version r.clientOs, fieldVersions.encode version r.clientArch]

/-- The derived `Decoder` of `ApiVersionsRequest`. -/
instance : VersionedDecoder ApiVersionsRequest where
  decodeAt version := do
    let clientVersion ← fieldVersions.decode version
    let clientOs ← fieldVersions.decode version
    let clientArch ← fieldVersions.decode version
    pure ⟨clientVersion, clientOs, clientArch⟩

/-- The three strings fit their length fields. -/
def Fits (r : ApiVersionsRequest) : Prop :=
  ShortString r.clientVersion ∧ ShortString r.clientOs ∧ ShortString r.clientArch

instance : DecidablePred Fits := fun r =>
  inferInstanceAs (Decidable (ShortString r.clientVersion ∧ ShortString r.clientOs ∧ ShortString r.clientArch))

/-- From version 1 on, a handshake that fits reads back whole. -/
theorem readsBackAt {version : Version} (hversion : 1 ≤ version.toInt) {r : ApiVersionsRequest} (h : r.Fits) :
    ReadsBackAt version r r := by
  have hin : fieldVersions.contains version = true :=
    FieldVersions.contains_iff.mpr ⟨by simp [fieldVersions]; omega, by simp [fieldVersions]⟩
  have hread : ReadsBackAt version r ⟨fieldVersions.keep version r.clientVersion,
      fieldVersions.keep version r.clientOs, fieldVersions.keep version r.clientArch⟩ :=
    ReadsWrite.cons (fieldVersions.readsBackAt version fun _ => h.1.readsBackAt version) <|
    ReadsWrite.cons (fieldVersions.readsBackAt version fun _ => h.2.1.readsBackAt version) <|
    ReadsWrite.cons (fieldVersions.readsBackAt version fun _ => h.2.2.readsBackAt version) (ReadsWrite.nil _)
  simpa only [FieldVersions.keep_of_contains hin] using hread

theorem encodesAt (version : Version) (r : ApiVersionsRequest) : EncodesAt version r :=
  catWrites_cons_isSome (fieldVersions.encode_isSome version fun _ => rfl) <|
  catWrites_cons_isSome (fieldVersions.encode_isSome version fun _ => rfl) <|
  catWrites_cons_isSome (fieldVersions.encode_isSome version fun _ => rfl) rfl

end ApiVersionsRequest

/-- `ApiVersionKey`: a key, and the versions the server takes it at. -/
structure ApiVersionKey where
  apiKey : Int16
  minVersion : Int16
  maxVersion : Int16
deriving DecidableEq, Repr

/-- `make_version_key`. -/
def makeVersionKey (key : SpuServerApiKey) (minVersion maxVersion : Int16) : ApiVersionKey :=
  ⟨key.toU16.toInt16, minVersion, maxVersion⟩

/-- The `api_keys` of `handle_api_version_request`. Produce and fetch requests are taken from
version 0 to `COMMON_VERSION`, offsets at `COMMON_VERSION` only, offset updates at 0. A client
that names no build (Fluvio 0.9.12 and before) is given stream fetches up to version 15 only. -/
def handleApiVersionRequest (request : ApiVersionsRequest) : List ApiVersionKey :=
  [makeVersionKey .produce 0 commonVersion,
    makeVersionKey .fetch 0 commonVersion,
    makeVersionKey .fetchOffsets commonVersion commonVersion,
    makeVersionKey .streamFetch 0
      (if request.clientVersion.isEmpty then 15 else Request.defaultApiVersion StreamFetchRequest),
    makeVersionKey .updateOffsets 0 0]

/-! ### The client -/

/-- `Versions::lookup_version::<R>`: at the first entry for the request's key whose range meets the
request's own, the smaller of the two maxima. -/
def lookupVersion (R : Type) [Request R] : List ApiVersionKey → Option Int16
  | [] => none
  | version :: versions =>
    if version.apiKey = (Request.apiKey R).toInt16 then
      if version.maxVersion ≥ Request.minApiVersion R ∧ version.minVersion ≤ Request.maxApiVersion R then
        some (min (Request.maxApiVersion R) version.maxVersion)
      else lookupVersion R versions
    else lookupVersion R versions

/-- The connection's handshake, as `VersionedSocket::connect` builds it: the client's build behind
a header with the client's id. -/
def helloRequest (clientId clientVersion clientOs clientArch : String) : RequestMessage ApiVersionsRequest :=
  let reqMsg := RequestMessage.newRequest (⟨clientVersion, clientOs, clientArch⟩ : ApiVersionsRequest)
  { reqMsg with header := { reqMsg.header with clientId := clientId } }

/-- `VersionedSerialSocket::new_request`: the request behind a header with the client's id, at the
version looked up, or at the request's default when the lookup found none. -/
def newRequest {R : Type} [Request R] (clientId : String) (request : R) (version : Option Int16) :
    RequestMessage R :=
  let reqMsg := RequestMessage.newRequest request
  let reqMsg := { reqMsg with header := { reqMsg.header with clientId := clientId } }
  match version with
  | some ver => { reqMsg with header := { reqMsg.header with apiVersion := ver } }
  | none => reqMsg

section Lookup

variable {R : Type} [Request R]

/-- What the lookup finds comes from an entry for the key whose range meets the request's. -/
theorem lookupVersion_spec {versions : List ApiVersionKey} {v : Int16} (h : lookupVersion R versions = some v) :
    ∃ key ∈ versions, key.apiKey = (Request.apiKey R).toInt16 ∧ key.maxVersion ≥ Request.minApiVersion R ∧
      key.minVersion ≤ Request.maxApiVersion R ∧ v = min (Request.maxApiVersion R) key.maxVersion := by
  induction versions with
  | nil => cases h
  | cons key versions ih =>
    unfold lookupVersion at h
    split_ifs at h with hkey hrange
    · exact ⟨key, List.mem_cons_self, hkey, hrange.1, hrange.2, (Option.some.inj h).symm⟩
    · obtain ⟨k, hk, hrest⟩ := ih h
      exact ⟨k, List.mem_cons_of_mem _ hk, hrest⟩
    · obtain ⟨k, hk, hrest⟩ := ih h
      exact ⟨k, List.mem_cons_of_mem _ hk, hrest⟩

/-- The lookup finds nothing exactly when no entry for the key has a range meeting the request's. -/
theorem lookupVersion_eq_none_iff {versions : List ApiVersionKey} :
    lookupVersion R versions = none ↔ ∀ key ∈ versions, key.apiKey = (Request.apiKey R).toInt16 →
      ¬ (key.maxVersion ≥ Request.minApiVersion R ∧ key.minVersion ≤ Request.maxApiVersion R) := by
  induction versions with
  | nil => simp [lookupVersion]
  | cons key versions ih =>
    unfold lookupVersion
    split_ifs with hkey hrange
    · simp only [false_iff, not_forall]
      exact ⟨key, List.mem_cons_self, hkey, not_not.mpr hrange⟩
    · rw [ih]
      constructor
      · intro hrest k hk hkk
        rcases List.mem_cons.mp hk with rfl | hk
        · exact hrange
        · exact hrest k hk hkk
      · intro hall k hk
        exact hall k (List.mem_cons_of_mem _ hk)
    · rw [ih]
      constructor
      · intro hrest k hk hkk
        rcases List.mem_cons.mp hk with rfl | hk
        · exact absurd hkk hkey
        · exact hrest k hk hkk
      · intro hall k hk
        exact hall k (List.mem_cons_of_mem _ hk)

/-- **Negotiated versions are shared.** A version the lookup finds lies in the request's range
and in the range of the entry it came from, when both ranges are well formed. -/
theorem lookupVersion_within {versions : List ApiVersionKey} {v : Int16} (h : lookupVersion R versions = some v)
    (hrange : Request.minApiVersion R ≤ Request.maxApiVersion R)
    (hwf : ∀ key ∈ versions, key.minVersion ≤ key.maxVersion) :
    ∃ key ∈ versions, key.apiKey = (Request.apiKey R).toInt16 ∧
      Request.minApiVersion R ≤ v ∧ v ≤ Request.maxApiVersion R ∧ key.minVersion ≤ v ∧ v ≤ key.maxVersion := by
  obtain ⟨key, hkey, hk, hmax, hmin, rfl⟩ := lookupVersion_spec h
  have hkwf := hwf key hkey
  refine ⟨key, hkey, hk, ?_, Std.min_le_left, ?_, Std.min_le_right⟩
  · exact Std.le_min_iff.mpr ⟨hrange, hmax⟩
  · exact Std.le_min_iff.mpr ⟨hmin, hkwf⟩

/-- A request is sent at the version the lookup found, or at its default. -/
theorem newRequest_apiVersion (clientId : String) (request : R) (version : Option Int16) :
    (newRequest clientId request version).header.apiVersion = version.getD (Request.defaultApiVersion R) := by
  cases version <;> rfl

/-- **The version a request goes out at.** When the server offers the request's key in a range
that meets the request's own, the request is sent at a version inside both ranges; when it offers
none, the request is sent at its default version all the same. -/
theorem newRequest_version {versions : List ApiVersionKey} (hrange : Request.minApiVersion R ≤ Request.maxApiVersion R)
    (hwf : ∀ key ∈ versions, key.minVersion ≤ key.maxVersion) (clientId : String) (request : R) :
    ((∃ key ∈ versions, key.apiKey = (Request.apiKey R).toInt16 ∧
        key.maxVersion ≥ Request.minApiVersion R ∧ key.minVersion ≤ Request.maxApiVersion R) →
      ∃ key ∈ versions, key.apiKey = (Request.apiKey R).toInt16 ∧
        Request.minApiVersion R ≤ (newRequest clientId request (lookupVersion R versions)).header.apiVersion ∧
        (newRequest clientId request (lookupVersion R versions)).header.apiVersion ≤ Request.maxApiVersion R ∧
        key.minVersion ≤ (newRequest clientId request (lookupVersion R versions)).header.apiVersion ∧
        (newRequest clientId request (lookupVersion R versions)).header.apiVersion ≤ key.maxVersion) ∧
    ((¬ ∃ key ∈ versions, key.apiKey = (Request.apiKey R).toInt16 ∧
        key.maxVersion ≥ Request.minApiVersion R ∧ key.minVersion ≤ Request.maxApiVersion R) →
      (newRequest clientId request (lookupVersion R versions)).header.apiVersion = Request.defaultApiVersion R) := by
  rw [newRequest_apiVersion]
  constructor
  · rintro ⟨key, hkey, hk, hoverlap⟩
    -- an overlapping entry rules out an empty lookup
    cases hlookup : lookupVersion R versions with
    | none => exact absurd hoverlap (lookupVersion_eq_none_iff.mp hlookup key hkey hk)
    | some v => exact lookupVersion_within hlookup hrange hwf
  · intro hnone
    have hlookup : lookupVersion R versions = none :=
      lookupVersion_eq_none_iff.mpr fun key hkey hk hoverlap => hnone ⟨key, hkey, hk, hoverlap⟩
    rw [hlookup]
    rfl

end Lookup

/-! ### The session -/

/-- The SPU's versions answer every client with well-formed ranges. -/
theorem handleApiVersionRequest_wf (request : ApiVersionsRequest) :
    ∀ key ∈ handleApiVersionRequest request, key.minVersion ≤ key.maxVersion := by
  intro key hkey
  simp only [handleApiVersionRequest, List.mem_cons, List.mem_nil_iff, or_false] at hkey
  rcases hkey with rfl | rfl | rfl | rfl | rfl
  all_goals try decide
  · show (0 : Int16) ≤ (if request.clientVersion.isEmpty then 15 else 25)
    split <;> decide

/-- A client that names its build is offered stream fetches up to `COMMON_VERSION`, and takes them
there. -/
theorem lookupVersion_streamFetch {request : ApiVersionsRequest} (hnamed : request.clientVersion ≠ "") :
    lookupVersion StreamFetchRequest (handleApiVersionRequest request) = some commonVersion := by
  have hempty : request.clientVersion.isEmpty = false := by
    simpa [String.isEmpty_iff] using hnamed
  simp only [handleApiVersionRequest, hempty, Bool.false_eq_true, if_false]
  rfl

/-- **A stream fetch session.** A client that names its build, in strings that fit their length
fields, sends the handshake, and the SPU reads it as it was sent and answers it with its versions;
the client then takes stream fetches at `COMMON_VERSION`. Each stream fetch it sends, under any
correlation id, is encoded in full, and the SPU reads it with the header as sent and the request
as sent, but for `wasm_module`, `smartmodule` and `derivedstream`, which it leaves at their
defaults. -/
theorem streamFetch_session {clientId clientVersion clientOs clientArch : String} (hclient : ShortString clientId)
    (hbuild : ApiVersionsRequest.Fits ⟨clientVersion, clientOs, clientArch⟩) (hnamed : clientVersion ≠ "")
    (correlationId : Int32) {r : StreamFetchRequest} (hr : r.Fits) :
    let hello := helloRequest clientId clientVersion clientOs clientArch
    let msg := (newRequest clientId r
      (lookupVersion StreamFetchRequest (handleApiVersionRequest hello.request))).withCorrelationId correlationId
    (EncodesAt 0 hello ∧ ReadsBackAt 0 hello hello) ∧
      lookupVersion StreamFetchRequest (handleApiVersionRequest hello.request) = some commonVersion ∧
      EncodesAt 0 msg ∧
      ReadsBackAt 0 msg ⟨msg.header, { r with wasmModule := [], smartmodule := none, derivedstream := none }⟩ := by
  intro hello msg
  have hlookup : lookupVersion StreamFetchRequest (handleApiVersionRequest hello.request) = some commonVersion :=
    lookupVersion_streamFetch hnamed
  -- the handshake is sent at `V10_PLATFORM`, where its three fields are written
  have hv10 : hello.header.apiVersion = ApiVersionsRequest.v10Platform := rfl
  have hhello : ReadsBackAt 0 hello ⟨hello.header, hello.request⟩ :=
    RequestMessage.readsBackAt (by decide) hclient
      (ApiVersionsRequest.readsBackAt (by rw [hv10]; decide) hbuild)
  -- the stream fetch goes out at the version the lookup found
  have hmsg : msg = ⟨{ RequestHeader.new SpuServerApiKey.streamFetch.toU16 with
      apiVersion := commonVersion, correlationId := correlationId, clientId := clientId }, r⟩ := by
    simp only [msg, hlookup]
    rfl
  have hrequest : msg.request = r := by rw [hmsg]
  have hid : msg.header.clientId = clientId := by rw [hmsg]
  have hversion : msg.header.apiVersion = commonVersion := by rw [hmsg]
  have hencodes : EncodesAt msg.header.apiVersion msg.request := by
    rw [hversion, hrequest]
    exact StreamFetchRequest.encodesAt commonVersion r
  have hreads : ReadsBackAt msg.header.apiVersion msg.request (r.atVersion commonVersion) := by
    rw [hversion, hrequest]
    exact StreamFetchRequest.readsBackAt commonVersion hr
  refine ⟨⟨RequestMessage.encodesAt 0 (ApiVersionsRequest.encodesAt _ _), hhello⟩, hlookup,
    RequestMessage.encodesAt 0 hencodes, ?_⟩
  rw [← StreamFetchRequest.atVersion_of_le (show 25 ≤ commonVersion.toInt by decide) r]
  exact RequestMessage.readsBackAt (by decide) (hid ▸ hclient) hreads

/-- A client that names no build is offered stream fetches up to version 15, below the client's own
range; it sends them at `COMMON_VERSION` all the same. -/
theorem unnamedClient_streamFetch_version :
    (newRequest "fluvio" (default : StreamFetchRequest)
      (lookupVersion StreamFetchRequest (handleApiVersionRequest ⟨"", "linux", "x86_64"⟩))).header.apiVersion =
        commonVersion :=
  (newRequest_version (by decide) (handleApiVersionRequest_wf _) "fluvio" default).2 (by decide)

theorem chainRequest_session :
    let hello := helloRequest "fluvio" "0.11.0" "linux" "x86_64"
    let msg := (newRequest "fluvio" StreamFetchRequest.chainRequest
      (lookupVersion StreamFetchRequest (handleApiVersionRequest hello.request))).withCorrelationId 7
    (EncodesAt 0 hello ∧ ReadsBackAt 0 hello hello) ∧
      lookupVersion StreamFetchRequest (handleApiVersionRequest hello.request) = some commonVersion ∧
      EncodesAt 0 msg ∧
      ReadsBackAt 0 msg
        ⟨msg.header,
          { StreamFetchRequest.chainRequest with wasmModule := [], smartmodule := none, derivedstream := none }⟩ :=
  streamFetch_session (by decide) (by decide) (by decide) 7 (by decide)

end Fluvio.Spu
