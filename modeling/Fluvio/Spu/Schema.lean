import Fluvio.Protocol.Versioned
import Fluvio.Consumer.Stream

/-!
The stream fetch request of the SPU's public API and the SmartModules it carries
(`fluvio-spu-schema/src/server/stream_fetch.rs`, `server/smartmodule.rs`, `isolation.rs`, and
`fluvio-smartmodule/src/input.rs`), as the derived codecs write and read them at each version.

A `StreamFetchRequest` names its SmartModules in three ways, one per era of the protocol: as a raw
`wasm_module` from version 11 to 18, as one `smartmodule` and one `derivedstream` from 16 to 18,
and as the chain `smartmodules` from 18 on. The SmartModules' parameters gained a `lookback` at
version 20 and the lookback an `age` at 21; a SmartModule gained its `name` at 25, in a codec
written by hand. The consumer id came at 23.

* `StreamFetchRequest.readsBackAt` — at every version, a request whose strings and vectors fit
  their length fields reads back as `StreamFetchRequest.atVersion`: each field outside its range
  at its default, down to the SmartModules inside it.
* `StreamFetchRequest.sizeAgreesIn` — at every version, `write_size` is the length of the encoding.
-/

namespace Fluvio.Protocol

theorem Duration.eq_of_parts {a b : Duration} (hs : a.secs = b.secs) (hn : a.nanos = b.nanos) : a = b := by
  cases a
  cases b
  cases hs
  cases hn
  rfl

instance : DecidableEq Duration := fun a b =>
  decidable_of_iff (a.secs = b.secs ∧ a.nanos = b.nanos)
    ⟨fun h => Duration.eq_of_parts h.1 h.2, fun h => h ▸ ⟨rfl, rfl⟩⟩

end Fluvio.Protocol

namespace Fluvio.Spu

open Protocol Cursor

/-- A string whose byte length fits the `i16` it is read back with. -/
def ShortString (s : String) : Prop := s.utf8ByteSize < 2 ^ 15

instance (s : String) : Decidable (ShortString s) := inferInstanceAs (Decidable (_ < _))

theorem ShortString.readsBackAt {s : String} (h : ShortString s) (version : Version) :
    ReadsBackAt version s s :=
  (String.readsBack h).readsBackAt version

/-- Bytes carried as a `Vec<u8>` read back when fewer than `2 ^ 31`. -/
theorem bytes_readsBackAt {bs : List UInt8} (h : bs.length < 2 ^ 31) (version : Version) :
    ReadsBackAt version bs bs :=
  (Vec.readsBack (fun x _ => u8Width.roundTrips "not enough buf for u8" x) h).readsBackAt version

theorem bytes_sizeAgrees (bs : List UInt8) : SizeAgreesAt bs :=
  Vec.sizeAgrees (FixedWidth.sizeAgrees u8Width) bs

theorem bytes_encode_isSome (bs : List UInt8) : (encode bs).isSome :=
  Vec.encode_isSome fun _ _ => rfl

/-! ### Enumerations -/

section Enums

/-- The tag of an enumeration's variant, `typ.encode(dest, version)` of a `u8`. -/
def tag (n : UInt8) : Option (List UInt8) := encode n

/-- Reading a tag. -/
def decodeTag : Decode UInt8 := Decoder.decode

theorem tag_reads (n : UInt8) : ReadsWrite bufferLimit decodeTag (tag n) n :=
  u8Width.roundTrips "not enough buf for u8" n

/-- `Isolation`, `#[fluvio(encode_discriminant)]` with `#[repr(u8)]`: the discriminant as a `u8`. -/
instance : Encoder Replication.Isolation where
  writeSize _ := some 1
  encode
    | .readUncommitted => tag 0
    | .readCommitted => tag 1

instance : Decoder Replication.Isolation where
  decode := do
    let typ ← decodeTag
    match typ.toNat with
    | 0 => pure .readUncommitted
    | 1 => pure .readCommitted
    | _ => Decoder.fail (.io .invalidData s!"Unknown Isolation type {typ}")

theorem Isolation.readsBack (i : Replication.Isolation) : ReadsBack i := by
  cases i with
  | readUncommitted => exact ReadsWrite.bind_nil (tag_reads 0) (ReadsExactly.pure _)
  | readCommitted => exact ReadsWrite.bind_nil (tag_reads 1) (ReadsExactly.pure _)

theorem Isolation.sizeAgrees : SizeAgrees Replication.Isolation := by
  intro i
  cases i <;> rfl

theorem Isolation.encode_isSome (i : Replication.Isolation) : (encode i).isSome := by
  cases i <;> rfl

/-- `SmartModuleContextData`. -/
inductive SmartModuleContextData
  | none
  | aggregate (accumulator : List UInt8)
  | join (topic : String)
  | joinStream (topic derivedstream : String)
deriving DecidableEq, Repr, Inhabited

/-- The derived `Encoder` of `SmartModuleContextData`: the tag, then the variant's fields. -/
instance : Encoder SmartModuleContextData where
  writeSize
    | .none => some 1
    | .aggregate accumulator => sumSizes [some 1, writeSize accumulator]
    | .join topic => sumSizes [some 1, writeSize topic]
    | .joinStream topic derivedstream => sumSizes [some 1, writeSize topic, writeSize derivedstream]
  encode
    | .none => tag 0
    | .aggregate accumulator => catWrites [tag 1, encode accumulator]
    | .join topic => catWrites [tag 2, encode topic]
    | .joinStream topic derivedstream => catWrites [tag 3, encode topic, encode derivedstream]

instance : Decoder SmartModuleContextData where
  decode := do
    let typ ← decodeTag
    match typ.toNat with
    | 0 => pure .none
    | 1 => do
      let accumulator ← Decoder.decode
      pure (.aggregate accumulator)
    | 2 => do
      let topic ← Decoder.decode
      pure (.join topic)
    | 3 => do
      let topic ← Decoder.decode
      let derivedstream ← Decoder.decode
      pure (.joinStream topic derivedstream)
    | _ => Decoder.fail (.io .invalidData s!"Unknown SmartModuleContextData type {typ}")

/-- The strings and bytes of a context fit their length fields. -/
def SmartModuleContextData.Fits : SmartModuleContextData → Prop
  | .none => True
  | .aggregate accumulator => accumulator.length < 2 ^ 31
  | .join topic => ShortString topic
  | .joinStream topic derivedstream => ShortString topic ∧ ShortString derivedstream

instance : DecidablePred SmartModuleContextData.Fits := fun
  | .none => inferInstanceAs (Decidable True)
  | .aggregate accumulator => inferInstanceAs (Decidable (accumulator.length < 2 ^ 31))
  | .join topic => inferInstanceAs (Decidable (ShortString topic))
  | .joinStream topic derivedstream => inferInstanceAs (Decidable (ShortString topic ∧ ShortString derivedstream))

theorem SmartModuleContextData.readsBack {c : SmartModuleContextData} (h : c.Fits) : ReadsBack c := by
  cases c with
  | none => exact ReadsWrite.bind_nil (tag_reads 0) (ReadsExactly.pure _)
  | aggregate accumulator =>
    exact ReadsWrite.cons (tag_reads 1) <| ReadsWrite.cons (bytes_readsBackAt h 0) (ReadsWrite.nil _)
  | join topic =>
    exact ReadsWrite.cons (tag_reads 2) <| ReadsWrite.cons (String.readsBack h) (ReadsWrite.nil _)
  | joinStream topic derivedstream =>
    exact ReadsWrite.cons (tag_reads 3) <| ReadsWrite.cons (String.readsBack h.1) <|
      ReadsWrite.cons (String.readsBack h.2) (ReadsWrite.nil _)

theorem SmartModuleContextData.sizeAgrees : SizeAgrees SmartModuleContextData := by
  intro c
  cases c with
  | none => rfl
  | aggregate accumulator =>
    show sumSizes [some 1, writeSize accumulator] = (catWrites [tag 1, encode accumulator]).map List.length
    rw [bytes_sizeAgrees accumulator]
    exact sumSizes_map_length [tag 1, _]
  | join topic =>
    show sumSizes [some 1, writeSize topic] = (catWrites [tag 2, encode topic]).map List.length
    rw [String.sizeAgrees topic]
    exact sumSizes_map_length [tag 2, _]
  | joinStream topic derivedstream =>
    show sumSizes [some 1, writeSize topic, writeSize derivedstream] =
      (catWrites [tag 3, encode topic, encode derivedstream]).map List.length
    rw [String.sizeAgrees topic, String.sizeAgrees derivedstream]
    exact sumSizes_map_length [tag 3, _, _]

theorem SmartModuleContextData.encode_isSome (c : SmartModuleContextData) : (encode c).isSome := by
  cases c with
  | none => rfl
  | aggregate accumulator => exact catWrites_cons_isSome rfl (catWrites_cons_isSome (bytes_encode_isSome _) rfl)
  | join topic => exact catWrites_cons_isSome rfl (catWrites_cons_isSome rfl rfl)
  | joinStream topic derivedstream =>
    exact catWrites_cons_isSome rfl (catWrites_cons_isSome rfl (catWrites_cons_isSome rfl rfl))

/-- `SmartModuleKind`. The version ranges its variants carry are read by neither side. -/
inductive SmartModuleKind
  | filter
  | map
  | arrayMap
  | aggregate (accumulator : List UInt8)
  | filterMap
  | join (topic : String)
  | joinStream (topic derivedstream : String)
  | generic (context : SmartModuleContextData)
deriving DecidableEq, Repr, Inhabited

/-- The derived `Encoder` of `SmartModuleKind`: the tag, then the variant's fields. -/
instance : Encoder SmartModuleKind where
  writeSize
    | .filter | .map | .arrayMap | .filterMap => some 1
    | .aggregate accumulator => sumSizes [some 1, writeSize accumulator]
    | .join topic => sumSizes [some 1, writeSize topic]
    | .joinStream topic derivedstream => sumSizes [some 1, writeSize topic, writeSize derivedstream]
    | .generic context => sumSizes [some 1, writeSize context]
  encode
    | .filter => tag 0
    | .map => tag 1
    | .arrayMap => tag 2
    | .aggregate accumulator => catWrites [tag 3, encode accumulator]
    | .filterMap => tag 4
    | .join topic => catWrites [tag 5, encode topic]
    | .joinStream topic derivedstream => catWrites [tag 6, encode topic, encode derivedstream]
    | .generic context => catWrites [tag 7, encode context]

instance : Decoder SmartModuleKind where
  decode := do
    let typ ← decodeTag
    match typ.toNat with
    | 0 => pure .filter
    | 1 => pure .map
    | 2 => pure .arrayMap
    | 3 => do
      let accumulator ← Decoder.decode
      pure (.aggregate accumulator)
    | 4 => pure .filterMap
    | 5 => do
      let topic ← Decoder.decode
      pure (.join topic)
    | 6 => do
      let topic ← Decoder.decode
      let derivedstream ← Decoder.decode
      pure (.joinStream topic derivedstream)
    | 7 => do
      let context ← Decoder.decode
      pure (.generic context)
    | _ => Decoder.fail (.io .invalidData s!"Unknown SmartModuleKind type {typ}")

/-- The strings and bytes of a kind fit their length fields. -/
def SmartModuleKind.Fits : SmartModuleKind → Prop
  | .aggregate accumulator => accumulator.length < 2 ^ 31
  | .join topic => ShortString topic
  | .joinStream topic derivedstream => ShortString topic ∧ ShortString derivedstream
  | .generic context => context.Fits
  | _ => True

instance : DecidablePred SmartModuleKind.Fits := fun
  | .filter | .map | .arrayMap | .filterMap => inferInstanceAs (Decidable True)
  | .aggregate accumulator => inferInstanceAs (Decidable (accumulator.length < 2 ^ 31))
  | .join topic => inferInstanceAs (Decidable (ShortString topic))
  | .joinStream topic derivedstream => inferInstanceAs (Decidable (ShortString topic ∧ ShortString derivedstream))
  | .generic context => inferInstanceAs (Decidable context.Fits)

theorem SmartModuleKind.readsBack {k : SmartModuleKind} (h : k.Fits) : ReadsBack k := by
  cases k with
  | filter => exact ReadsWrite.bind_nil (tag_reads 0) (ReadsExactly.pure _)
  | map => exact ReadsWrite.bind_nil (tag_reads 1) (ReadsExactly.pure _)
  | arrayMap => exact ReadsWrite.bind_nil (tag_reads 2) (ReadsExactly.pure _)
  | aggregate accumulator =>
    exact ReadsWrite.cons (tag_reads 3) <| ReadsWrite.cons (bytes_readsBackAt h 0) (ReadsWrite.nil _)
  | filterMap => exact ReadsWrite.bind_nil (tag_reads 4) (ReadsExactly.pure _)
  | join topic =>
    exact ReadsWrite.cons (tag_reads 5) <| ReadsWrite.cons (String.readsBack h) (ReadsWrite.nil _)
  | joinStream topic derivedstream =>
    exact ReadsWrite.cons (tag_reads 6) <| ReadsWrite.cons (String.readsBack h.1) <|
      ReadsWrite.cons (String.readsBack h.2) (ReadsWrite.nil _)
  | generic context =>
    exact ReadsWrite.cons (tag_reads 7) <|
      ReadsWrite.cons (SmartModuleContextData.readsBack h) (ReadsWrite.nil _)

theorem SmartModuleKind.sizeAgrees : SizeAgrees SmartModuleKind := by
  intro k
  cases k with
  | filter | map | arrayMap | filterMap => rfl
  | aggregate accumulator =>
    show sumSizes [some 1, writeSize accumulator] = (catWrites [tag 3, encode accumulator]).map List.length
    rw [bytes_sizeAgrees accumulator]
    exact sumSizes_map_length [tag 3, _]
  | join topic =>
    show sumSizes [some 1, writeSize topic] = (catWrites [tag 5, encode topic]).map List.length
    rw [String.sizeAgrees topic]
    exact sumSizes_map_length [tag 5, _]
  | joinStream topic derivedstream =>
    show sumSizes [some 1, writeSize topic, writeSize derivedstream] =
      (catWrites [tag 6, encode topic, encode derivedstream]).map List.length
    rw [String.sizeAgrees topic, String.sizeAgrees derivedstream]
    exact sumSizes_map_length [tag 6, _, _]
  | generic context =>
    show sumSizes [some 1, writeSize context] = (catWrites [tag 7, encode context]).map List.length
    rw [SmartModuleContextData.sizeAgrees context]
    exact sumSizes_map_length [tag 7, _]

theorem SmartModuleKind.encode_isSome (k : SmartModuleKind) : (encode k).isSome := by
  cases k with
  | filter | map | arrayMap | filterMap => rfl
  | aggregate accumulator => exact catWrites_cons_isSome rfl (catWrites_cons_isSome (bytes_encode_isSome _) rfl)
  | join topic => exact catWrites_cons_isSome rfl (catWrites_cons_isSome rfl rfl)
  | joinStream topic derivedstream =>
    exact catWrites_cons_isSome rfl (catWrites_cons_isSome rfl (catWrites_cons_isSome rfl rfl))
  | generic context =>
    exact catWrites_cons_isSome rfl (catWrites_cons_isSome (SmartModuleContextData.encode_isSome _) rfl)

/-- `SmartModuleInvocationWasm`; its default is an empty ad-hoc module. -/
inductive SmartModuleInvocationWasm
  | predefined (name : String)
  | adHoc (bytes : List UInt8)
deriving DecidableEq, Repr

instance : Inhabited SmartModuleInvocationWasm := ⟨.adHoc []⟩

/-- The derived `Encoder` of `SmartModuleInvocationWasm`. -/
instance : Encoder SmartModuleInvocationWasm where
  writeSize
    | .predefined name => sumSizes [some 1, writeSize name]
    | .adHoc bytes => sumSizes [some 1, writeSize bytes]
  encode
    | .predefined name => catWrites [tag 0, encode name]
    | .adHoc bytes => catWrites [tag 1, encode bytes]

instance : Decoder SmartModuleInvocationWasm where
  decode := do
    let typ ← decodeTag
    match typ.toNat with
    | 0 => do
      let name ← Decoder.decode
      pure (.predefined name)
    | 1 => do
      let bytes ← Decoder.decode
      pure (.adHoc bytes)
    | _ => Decoder.fail (.io .invalidData s!"Unknown SmartModuleInvocationWasm type {typ}")

/-- The name or the bytes of a module fit their length field. -/
def SmartModuleInvocationWasm.Fits : SmartModuleInvocationWasm → Prop
  | .predefined name => ShortString name
  | .adHoc bytes => bytes.length < 2 ^ 31

instance : DecidablePred SmartModuleInvocationWasm.Fits := fun
  | .predefined name => inferInstanceAs (Decidable (ShortString name))
  | .adHoc bytes => inferInstanceAs (Decidable (bytes.length < 2 ^ 31))

theorem SmartModuleInvocationWasm.readsBack {w : SmartModuleInvocationWasm} (h : w.Fits) : ReadsBack w := by
  cases w with
  | predefined name =>
    exact ReadsWrite.cons (tag_reads 0) <| ReadsWrite.cons (String.readsBack h) (ReadsWrite.nil _)
  | adHoc bytes =>
    exact ReadsWrite.cons (tag_reads 1) <| ReadsWrite.cons (bytes_readsBackAt h 0) (ReadsWrite.nil _)

theorem SmartModuleInvocationWasm.sizeAgrees : SizeAgrees SmartModuleInvocationWasm := by
  intro w
  cases w with
  | predefined name =>
    show sumSizes [some 1, writeSize name] = (catWrites [tag 0, encode name]).map List.length
    rw [String.sizeAgrees name]
    exact sumSizes_map_length [tag 0, _]
  | adHoc bytes =>
    show sumSizes [some 1, writeSize bytes] = (catWrites [tag 1, encode bytes]).map List.length
    rw [bytes_sizeAgrees bytes]
    exact sumSizes_map_length [tag 1, _]

theorem SmartModuleInvocationWasm.encode_isSome (w : SmartModuleInvocationWasm) : (encode w).isSome := by
  cases w with
  | predefined name => exact catWrites_cons_isSome rfl (catWrites_cons_isSome rfl rfl)
  | adHoc bytes => exact catWrites_cons_isSome rfl (catWrites_cons_isSome (bytes_encode_isSome _) rfl)

end Enums

/-! ### SmartModule parameters and invocations -/

/-- `Lookback`. -/
structure Lookback where
  last : UInt64
  age : Option Duration
deriving DecidableEq

instance : Inhabited Lookback := ⟨⟨0, none⟩⟩

/-- `#[fluvio(min_version = 21)]` on `age`. -/
def Lookback.ageVersions : FieldVersions := ⟨21, none⟩

/-- The derived `Encoder` of `Lookback`. -/
instance : VersionedEncoder Lookback where
  writeSizeAt version l := sumSizes [plain.writeSize version l.last, Lookback.ageVersions.writeSize version l.age]
  encodeAt version l := catWrites [plain.encode version l.last, Lookback.ageVersions.encode version l.age]

/-- The derived `Decoder` of `Lookback`. -/
instance : VersionedDecoder Lookback where
  decodeAt version := do
    let last ← plain.decode version
    let age ← Lookback.ageVersions.decode version
    pure ⟨last, age⟩

/-- What a lookback reads back as at `version`. -/
def Lookback.atVersion (version : Version) (l : Lookback) : Lookback :=
  ⟨plain.keep version l.last, Lookback.ageVersions.keep version l.age⟩

theorem Lookback.readsBackAt (version : Version) (l : Lookback) :
    ReadsBackAt version l (l.atVersion version) :=
  ReadsWrite.cons (plain.readsBackAt version fun _ => (u64Width.roundTrips _ l.last).readsBackAt version) <|
  ReadsWrite.cons (Lookback.ageVersions.readsBackAt version fun _ =>
    (Option.readsBack fun d _ => Duration.roundTrips d).readsBackAt version) (ReadsWrite.nil _)

theorem Lookback.sizeAgreesIn (version : Version) (l : Lookback) : SizeAgreesIn version l := by
  show sumSizes [plain.writeSize version l.last, Lookback.ageVersions.writeSize version l.age] =
    (catWrites [plain.encode version l.last, Lookback.ageVersions.encode version l.age]).map List.length
  rw [plain.sizeAgreesIn version fun _ => (FixedWidth.sizeAgrees u64Width l.last).sizeAgreesIn version,
    Lookback.ageVersions.sizeAgreesIn version fun _ =>
      (Option.sizeAgreesAt fun d _ => Duration.sizeAgrees d).sizeAgreesIn version]
  exact sumSizes_map_length [_, _]

theorem Lookback.encodesAt (version : Version) (l : Lookback) : EncodesAt version l :=
  catWrites_cons_isSome (plain.encode_isSome version fun _ => rfl) <|
  catWrites_cons_isSome (Lookback.ageVersions.encode_isSome version fun _ =>
    Option.encode_isSome fun _ _ => rfl) rfl

/-- From version 21 on, a lookback reads back whole. -/
theorem Lookback.atVersion_of_le {version : Version} (h : 21 ≤ version.toInt) (l : Lookback) :
    l.atVersion version = l := by
  have hplain : plain.contains version = true := FieldVersions.contains_iff.mpr ⟨by simp [plain]; omega, by simp [plain]⟩
  have hage : Lookback.ageVersions.contains version = true :=
    FieldVersions.contains_iff.mpr ⟨by simp [Lookback.ageVersions]; omega, by simp [Lookback.ageVersions]⟩
  simp [Lookback.atVersion, FieldVersions.keep_of_contains hplain, FieldVersions.keep_of_contains hage]

/-- `SmartModuleExtraParams`. -/
structure SmartModuleExtraParams where
  inner : BTreeMap String String
  lookback : Option Lookback

instance : Inhabited SmartModuleExtraParams := ⟨⟨default, none⟩⟩

/-- `#[fluvio(min_version = 20)]` on `lookback`. -/
def SmartModuleExtraParams.lookbackVersions : FieldVersions := ⟨20, none⟩

/-- The derived `Encoder` of `SmartModuleExtraParams`. -/
instance : VersionedEncoder SmartModuleExtraParams where
  writeSizeAt version p :=
    sumSizes [plain.writeSize version p.inner, SmartModuleExtraParams.lookbackVersions.writeSize version p.lookback]
  encodeAt version p :=
    catWrites [plain.encode version p.inner, SmartModuleExtraParams.lookbackVersions.encode version p.lookback]

/-- The derived `Decoder` of `SmartModuleExtraParams`. -/
instance : VersionedDecoder SmartModuleExtraParams where
  decodeAt version := do
    let inner ← plain.decode version
    let lookback ← SmartModuleExtraParams.lookbackVersions.decode version
    pure ⟨inner, lookback⟩

/-- What parameters read back as at `version`. -/
def SmartModuleExtraParams.atVersion (version : Version) (p : SmartModuleExtraParams) : SmartModuleExtraParams :=
  ⟨plain.keep version p.inner,
    SmartModuleExtraParams.lookbackVersions.keep version (p.lookback.map (Lookback.atVersion version))⟩

/-- The parameters fit the `u16` count and the `i16` string lengths they are read back with. -/
def SmartModuleExtraParams.Fits (p : SmartModuleExtraParams) : Prop :=
  p.inner.entries.length < 2 ^ 16 ∧ ∀ e ∈ p.inner.entries, ShortString e.1 ∧ ShortString e.2

instance : DecidablePred SmartModuleExtraParams.Fits := fun p =>
  inferInstanceAs (Decidable (_ ∧ ∀ e ∈ p.inner.entries, _))

theorem SmartModuleExtraParams.readsBackAt (version : Version) {p : SmartModuleExtraParams} (h : p.Fits) :
    ReadsBackAt version p (p.atVersion version) := by
  have hinner : ReadsBackAt version p.inner p.inner :=
    (BTreeMap.readsBack (fun e he => ⟨String.readsBack (h.2 e he).1, String.readsBack (h.2 e he).2⟩)
      h.1).readsBackAt version
  have hlookback : ReadsBackAt version p.lookback (p.lookback.map (Lookback.atVersion version)) :=
    Option.readsBackAt _ fun l _ => Lookback.readsBackAt version l
  exact ReadsWrite.cons (plain.readsBackAt version fun _ => hinner) <|
    ReadsWrite.cons (SmartModuleExtraParams.lookbackVersions.readsBackAt version fun _ => hlookback)
      (ReadsWrite.nil _)

theorem SmartModuleExtraParams.sizeAgreesIn (version : Version) (p : SmartModuleExtraParams) :
    SizeAgreesIn version p := by
  have hinner : SizeAgreesIn version p.inner :=
    (BTreeMap.sizeAgreesAt fun e _ => ⟨String.sizeAgrees e.1, String.sizeAgrees e.2⟩).sizeAgreesIn version
  have hlookback : SizeAgreesIn version p.lookback :=
    Option.sizeAgreesIn fun l _ => Lookback.sizeAgreesIn version l
  show sumSizes [plain.writeSize version p.inner,
      SmartModuleExtraParams.lookbackVersions.writeSize version p.lookback] =
    (catWrites [plain.encode version p.inner,
      SmartModuleExtraParams.lookbackVersions.encode version p.lookback]).map List.length
  rw [plain.sizeAgreesIn version fun _ => hinner,
    SmartModuleExtraParams.lookbackVersions.sizeAgreesIn version fun _ => hlookback]
  exact sumSizes_map_length [_, _]

theorem SmartModuleExtraParams.encodesAt (version : Version) (p : SmartModuleExtraParams) :
    EncodesAt version p :=
  catWrites_cons_isSome (plain.encode_isSome version fun _ => BTreeMap.encode_isSome fun _ _ => ⟨rfl, rfl⟩) <|
  catWrites_cons_isSome (SmartModuleExtraParams.lookbackVersions.encode_isSome version fun _ =>
    Option.encodesAt fun l _ => Lookback.encodesAt version l) rfl

/-- From version 21 on, parameters read back whole. -/
theorem SmartModuleExtraParams.atVersion_of_le {version : Version} (h : 21 ≤ version.toInt)
    (p : SmartModuleExtraParams) : p.atVersion version = p := by
  have hplain : plain.contains version = true := FieldVersions.contains_iff.mpr ⟨by simp [plain]; omega, by simp [plain]⟩
  have hlookback : SmartModuleExtraParams.lookbackVersions.contains version = true :=
    FieldVersions.contains_iff.mpr
      ⟨by simp [SmartModuleExtraParams.lookbackVersions]; omega, by simp [SmartModuleExtraParams.lookbackVersions]⟩
  have hmap : p.lookback.map (Lookback.atVersion version) = p.lookback := by
    cases p.lookback <;> simp [Lookback.atVersion_of_le h]
  simp [SmartModuleExtraParams.atVersion, FieldVersions.keep_of_contains hplain,
    FieldVersions.keep_of_contains hlookback, hmap]

/-- `SmartModuleInvocation`. -/
structure SmartModuleInvocation where
  wasm : SmartModuleInvocationWasm
  kind : SmartModuleKind
  params : SmartModuleExtraParams
  name : Option String

instance : Inhabited SmartModuleInvocation := ⟨⟨default, default, default, none⟩⟩

/-- `COMMON_VERSION_HAS_SM_NAME`: the version that added a SmartModule's name. -/
def commonVersionHasSmName : Version := 25

/-- The name's part of the hand-written `write_size`: counted from `COMMON_VERSION_HAS_SM_NAME` on. -/
def SmartModuleInvocation.writeSizeName (version : Version) (name : Option String) : Option Nat :=
  if version ≥ commonVersionHasSmName then writeSizeAt version name else some 0

/-- The name's part of the hand-written `encode`: written from `COMMON_VERSION_HAS_SM_NAME` on. -/
def SmartModuleInvocation.encodeName (version : Version) (name : Option String) : Option (List UInt8) :=
  if version ≥ commonVersionHasSmName then encodeAt version name else some []

/-- The name's part of the hand-written `decode`: `None` below `COMMON_VERSION_HAS_SM_NAME`, read
from there on. -/
def SmartModuleInvocation.decodeName (version : Version) : Decode (Option String) :=
  if version < commonVersionHasSmName then pure none else decodeAt version

/-- `Encoder for SmartModuleInvocation`, by hand: the module, the kind, the parameters, and the
name from `COMMON_VERSION_HAS_SM_NAME` on. -/
instance : VersionedEncoder SmartModuleInvocation where
  writeSizeAt version s := sumSizes [writeSizeAt version s.wasm, writeSizeAt version s.kind,
    writeSizeAt version s.params, SmartModuleInvocation.writeSizeName version s.name]
  encodeAt version s := catWrites [encodeAt version s.wasm, encodeAt version s.kind,
    encodeAt version s.params, SmartModuleInvocation.encodeName version s.name]

/-- `Decoder for SmartModuleInvocation`, by hand. -/
instance : VersionedDecoder SmartModuleInvocation where
  decodeAt version := do
    let wasm ← decodeAt version
    let kind ← decodeAt version
    let params ← decodeAt version
    let name ← SmartModuleInvocation.decodeName version
    pure ⟨wasm, kind, params, name⟩

/-- The hand-written check on the name is the derive's `min_version = COMMON_VERSION_HAS_SM_NAME`. -/
def SmartModuleInvocation.nameVersions : FieldVersions := ⟨commonVersionHasSmName, none⟩

theorem SmartModuleInvocation.nameVersions_contains (version : Version) :
    SmartModuleInvocation.nameVersions.contains version = decide (version ≥ commonVersionHasSmName) := rfl

theorem SmartModuleInvocation.writeSizeName_eq (version : Version) (name : Option String) :
    SmartModuleInvocation.writeSizeName version name = SmartModuleInvocation.nameVersions.writeSize version name := by
  simp [SmartModuleInvocation.writeSizeName, FieldVersions.writeSize, SmartModuleInvocation.nameVersions_contains]

theorem SmartModuleInvocation.encodeName_eq (version : Version) (name : Option String) :
    SmartModuleInvocation.encodeName version name = SmartModuleInvocation.nameVersions.encode version name := by
  simp [SmartModuleInvocation.encodeName, FieldVersions.encode, SmartModuleInvocation.nameVersions_contains]

theorem SmartModuleInvocation.decodeName_eq (version : Version) :
    SmartModuleInvocation.decodeName version = SmartModuleInvocation.nameVersions.decode version := by
  unfold SmartModuleInvocation.decodeName FieldVersions.decode
  rw [SmartModuleInvocation.nameVersions_contains]
  have hiff : version < commonVersionHasSmName ↔ ¬ version ≥ commonVersionHasSmName := by
    rw [Int16.lt_iff_toInt_lt, ge_iff_le, Int16.le_iff_toInt_le]
    omega
  by_cases h : version < commonVersionHasSmName
  · simp only [h, hiff.mp h, if_true, decide_false, Bool.false_eq_true, if_false]
    rfl
  · simp only [h, not_not.mp (mt hiff.mpr h), if_false, decide_true, if_true]

/-- What an invocation reads back as at `version`. -/
def SmartModuleInvocation.atVersion (version : Version) (s : SmartModuleInvocation) : SmartModuleInvocation :=
  ⟨s.wasm, s.kind, s.params.atVersion version, SmartModuleInvocation.nameVersions.keep version s.name⟩

/-- The strings and vectors of an invocation fit their length fields. -/
def SmartModuleInvocation.Fits (s : SmartModuleInvocation) : Prop :=
  s.wasm.Fits ∧ s.kind.Fits ∧ s.params.Fits ∧ ∀ n ∈ s.name, ShortString n

instance : DecidablePred SmartModuleInvocation.Fits := fun s =>
  inferInstanceAs (Decidable (_ ∧ _ ∧ _ ∧ ∀ n ∈ s.name, ShortString n))

theorem SmartModuleInvocation.readsBackAt (version : Version) {s : SmartModuleInvocation} (h : s.Fits) :
    ReadsBackAt version s (s.atVersion version) := by
  obtain ⟨hwasm, hkind, hparams, hname⟩ := h
  have hnameReads : ReadsWrite bufferLimit (SmartModuleInvocation.decodeName version)
      (SmartModuleInvocation.encodeName version s.name) (SmartModuleInvocation.nameVersions.keep version s.name) := by
    rw [SmartModuleInvocation.decodeName_eq, SmartModuleInvocation.encodeName_eq]
    exact SmartModuleInvocation.nameVersions.readsBackAt version fun _ =>
      (Option.readsBack fun n hn => String.readsBack (hname n hn)).readsBackAt version
  exact ReadsWrite.cons ((SmartModuleInvocationWasm.readsBack hwasm).readsBackAt version) <|
    ReadsWrite.cons ((SmartModuleKind.readsBack hkind).readsBackAt version) <|
    ReadsWrite.cons (SmartModuleExtraParams.readsBackAt version hparams) <|
    ReadsWrite.cons hnameReads (ReadsWrite.nil _)

theorem SmartModuleInvocation.sizeAgreesIn (version : Version) (s : SmartModuleInvocation) :
    SizeAgreesIn version s := by
  have hname : SmartModuleInvocation.writeSizeName version s.name =
      (SmartModuleInvocation.encodeName version s.name).map List.length := by
    rw [SmartModuleInvocation.writeSizeName_eq, SmartModuleInvocation.encodeName_eq]
    exact SmartModuleInvocation.nameVersions.sizeAgreesIn version fun _ =>
      (Option.sizeAgreesAt fun n _ => String.sizeAgrees n).sizeAgreesIn version
  show sumSizes [writeSizeAt version s.wasm, writeSizeAt version s.kind, writeSizeAt version s.params,
      SmartModuleInvocation.writeSizeName version s.name] =
    (catWrites [encodeAt version s.wasm, encodeAt version s.kind, encodeAt version s.params,
      SmartModuleInvocation.encodeName version s.name]).map List.length
  rw [(SmartModuleInvocationWasm.sizeAgrees s.wasm).sizeAgreesIn version,
    (SmartModuleKind.sizeAgrees s.kind).sizeAgreesIn version, SmartModuleExtraParams.sizeAgreesIn version s.params,
    hname]
  exact sumSizes_map_length [_, _, _, _]

theorem SmartModuleInvocation.encodesAt (version : Version) (s : SmartModuleInvocation) :
    EncodesAt version s := by
  have hname : (SmartModuleInvocation.encodeName version s.name).isSome := by
    rw [SmartModuleInvocation.encodeName_eq]
    exact SmartModuleInvocation.nameVersions.encode_isSome version fun _ => Option.encode_isSome fun _ _ => rfl
  exact catWrites_cons_isSome (SmartModuleInvocationWasm.encode_isSome s.wasm) <|
    catWrites_cons_isSome (SmartModuleKind.encode_isSome s.kind) <|
    catWrites_cons_isSome (SmartModuleExtraParams.encodesAt version s.params) <| catWrites_cons_isSome hname rfl

/-- From `COMMON_VERSION_HAS_SM_NAME` on, an invocation reads back whole. -/
theorem SmartModuleInvocation.atVersion_of_le {version : Version} (h : 25 ≤ version.toInt)
    (s : SmartModuleInvocation) : s.atVersion version = s := by
  have hname : SmartModuleInvocation.nameVersions.contains version = true :=
    FieldVersions.contains_iff.mpr ⟨by simp [SmartModuleInvocation.nameVersions, commonVersionHasSmName]; omega,
      by simp [SmartModuleInvocation.nameVersions]⟩
  simp [SmartModuleInvocation.atVersion, SmartModuleExtraParams.atVersion_of_le (show 21 ≤ version.toInt by omega),
    FieldVersions.keep_of_contains hname]

/-- `DerivedStreamInvocation`. -/
structure DerivedStreamInvocation where
  stream : String
  params : SmartModuleExtraParams

instance : Inhabited DerivedStreamInvocation := ⟨⟨"", default⟩⟩

/-- The derived `Encoder` of `DerivedStreamInvocation`. -/
instance : VersionedEncoder DerivedStreamInvocation where
  writeSizeAt version d := sumSizes [plain.writeSize version d.stream, plain.writeSize version d.params]
  encodeAt version d := catWrites [plain.encode version d.stream, plain.encode version d.params]

/-- The derived `Decoder` of `DerivedStreamInvocation`. -/
instance : VersionedDecoder DerivedStreamInvocation where
  decodeAt version := do
    let stream ← plain.decode version
    let params ← plain.decode version
    pure ⟨stream, params⟩

/-- What a derived stream reads back as at `version`. -/
def DerivedStreamInvocation.atVersion (version : Version) (d : DerivedStreamInvocation) : DerivedStreamInvocation :=
  ⟨plain.keep version d.stream, plain.keep version (d.params.atVersion version)⟩

/-- The stream's name and parameters fit their length fields. -/
def DerivedStreamInvocation.Fits (d : DerivedStreamInvocation) : Prop := ShortString d.stream ∧ d.params.Fits

instance : DecidablePred DerivedStreamInvocation.Fits := fun d =>
  inferInstanceAs (Decidable (ShortString d.stream ∧ d.params.Fits))

theorem DerivedStreamInvocation.readsBackAt (version : Version) {d : DerivedStreamInvocation} (h : d.Fits) :
    ReadsBackAt version d (d.atVersion version) :=
  ReadsWrite.cons (plain.readsBackAt version fun _ => (String.readsBack h.1).readsBackAt version) <|
  ReadsWrite.cons (plain.readsBackAt version fun _ => SmartModuleExtraParams.readsBackAt version h.2)
    (ReadsWrite.nil _)

theorem DerivedStreamInvocation.sizeAgreesIn (version : Version) (d : DerivedStreamInvocation) :
    SizeAgreesIn version d := by
  show sumSizes [plain.writeSize version d.stream, plain.writeSize version d.params] =
    (catWrites [plain.encode version d.stream, plain.encode version d.params]).map List.length
  rw [plain.sizeAgreesIn version fun _ => (String.sizeAgrees d.stream).sizeAgreesIn version,
    plain.sizeAgreesIn version fun _ => SmartModuleExtraParams.sizeAgreesIn version d.params]
  exact sumSizes_map_length [_, _]

theorem DerivedStreamInvocation.encodesAt (version : Version) (d : DerivedStreamInvocation) :
    EncodesAt version d :=
  catWrites_cons_isSome (plain.encode_isSome version fun _ => rfl) <|
  catWrites_cons_isSome (plain.encode_isSome version fun _ => SmartModuleExtraParams.encodesAt version d.params) rfl

/-! ### The stream fetch request -/

/-- `SpuServerApiKey`: the keys of the SPU's public API. -/
inductive SpuServerApiKey
  | apiVersion
  | produce
  | fetch
  | fetchOffsets
  | streamFetch
  | updateOffsets
  | updateConsumerOffset
  | deleteConsumerOffset
  | fetchConsumerOffsets
  | startMirror
deriving DecidableEq, Repr

/-- The discriminant of a key, `key as u16`. -/
def SpuServerApiKey.toU16 : SpuServerApiKey → UInt16
  | .apiVersion => 18
  | .produce => 0
  | .fetch => 1
  | .fetchOffsets => 1002
  | .streamFetch => 1003
  | .updateOffsets => 1005
  | .updateConsumerOffset => 1006
  | .deleteConsumerOffset => 1007
  | .fetchConsumerOffsets => 1008
  | .startMirror => 2000

/-- `COMMON_VERSION`: the version the SPU's requests are sent at by default. -/
def commonVersion : Version := 25

/-- `StreamFetchRequest<R>`; its `data: PhantomData<R>` writes and reads nothing. -/
structure StreamFetchRequest where
  topic : String
  partition : UInt32
  fetchOffset : Int64
  maxBytes : Int32
  isolation : Replication.Isolation
  wasmModule : List UInt8
  smartmodule : Option SmartModuleInvocation
  derivedstream : Option DerivedStreamInvocation
  smartmodules : List SmartModuleInvocation
  consumerId : Option String

instance : Inhabited StreamFetchRequest := ⟨⟨"", 0, 0, 0, default, [], none, none, [], none⟩⟩

namespace StreamFetchRequest

/-- `Request for StreamFetchRequest`: `SpuServerApiKey::StreamFetch` at `COMMON_VERSION`, and the
trait's range below it. -/
instance : Request StreamFetchRequest := Request.ofDefault SpuServerApiKey.streamFetch.toU16 commonVersion

/-- `#[fluvio(min_version = 11, max_version = 18)]` on `wasm_module`. -/
def wasmModuleVersions : FieldVersions := ⟨11, some 18⟩

/-- `#[fluvio(min_version = 16, max_version = 18)]` on `smartmodule` and on `derivedstream`. -/
def smartmoduleVersions : FieldVersions := ⟨16, some 18⟩

/-- `#[fluvio(min_version = 18)]` on `smartmodules`. -/
def smartmodulesVersions : FieldVersions := ⟨18, none⟩

/-- `#[fluvio(min_version = 23)]` on `consumer_id`. -/
def consumerIdVersions : FieldVersions := ⟨23, none⟩

/-- The derived `Encoder` of `StreamFetchRequest`. -/
instance : VersionedEncoder StreamFetchRequest where
  writeSizeAt version r := sumSizes [plain.writeSize version r.topic, plain.writeSize version r.partition,
    plain.writeSize version r.fetchOffset, plain.writeSize version r.maxBytes, plain.writeSize version r.isolation,
    wasmModuleVersions.writeSize version r.wasmModule, smartmoduleVersions.writeSize version r.smartmodule,
    smartmoduleVersions.writeSize version r.derivedstream, smartmodulesVersions.writeSize version r.smartmodules,
    consumerIdVersions.writeSize version r.consumerId]
  encodeAt version r := catWrites [plain.encode version r.topic, plain.encode version r.partition,
    plain.encode version r.fetchOffset, plain.encode version r.maxBytes, plain.encode version r.isolation,
    wasmModuleVersions.encode version r.wasmModule, smartmoduleVersions.encode version r.smartmodule,
    smartmoduleVersions.encode version r.derivedstream, smartmodulesVersions.encode version r.smartmodules,
    consumerIdVersions.encode version r.consumerId]

/-- The derived `Decoder` of `StreamFetchRequest`. -/
instance : VersionedDecoder StreamFetchRequest where
  decodeAt version := do
    let topic ← plain.decode version
    let partition ← plain.decode version
    let fetchOffset ← plain.decode version
    let maxBytes ← plain.decode version
    let isolation ← plain.decode version
    let wasmModule ← wasmModuleVersions.decode version
    let smartmodule ← smartmoduleVersions.decode version
    let derivedstream ← smartmoduleVersions.decode version
    let smartmodules ← smartmodulesVersions.decode version
    let consumerId ← consumerIdVersions.decode version
    pure ⟨topic, partition, fetchOffset, maxBytes, isolation, wasmModule, smartmodule, derivedstream,
      smartmodules, consumerId⟩

/-- What a request reads back as at `version`: every field outside its range at its default, and
the SmartModules inside it as they read back. -/
def atVersion (version : Version) (r : StreamFetchRequest) : StreamFetchRequest :=
  ⟨plain.keep version r.topic, plain.keep version r.partition, plain.keep version r.fetchOffset,
    plain.keep version r.maxBytes, plain.keep version r.isolation, wasmModuleVersions.keep version r.wasmModule,
    smartmoduleVersions.keep version (r.smartmodule.map (SmartModuleInvocation.atVersion version)),
    smartmoduleVersions.keep version (r.derivedstream.map (DerivedStreamInvocation.atVersion version)),
    smartmodulesVersions.keep version (r.smartmodules.map (SmartModuleInvocation.atVersion version)),
    consumerIdVersions.keep version r.consumerId⟩

/-- The strings and vectors of a request fit their length fields. -/
def Fits (r : StreamFetchRequest) : Prop :=
  ShortString r.topic ∧ r.wasmModule.length < 2 ^ 31 ∧ (∀ s ∈ r.smartmodule, s.Fits) ∧
    (∀ d ∈ r.derivedstream, d.Fits) ∧ r.smartmodules.length < 2 ^ 31 ∧ (∀ s ∈ r.smartmodules, s.Fits) ∧
    ∀ c ∈ r.consumerId, ShortString c

instance : DecidablePred Fits := fun r =>
  inferInstanceAs (Decidable (_ ∧ _ ∧ (∀ s ∈ r.smartmodule, s.Fits) ∧ (∀ d ∈ r.derivedstream, d.Fits) ∧ _ ∧
    (∀ s ∈ r.smartmodules, s.Fits) ∧ ∀ c ∈ r.consumerId, ShortString c))

/-- At every version, a request that fits reads back as `atVersion`. -/
theorem readsBackAt (version : Version) {r : StreamFetchRequest} (h : r.Fits) :
    ReadsBackAt version r (r.atVersion version) := by
  obtain ⟨htopic, hwasm, hsmartmodule, hderived, hlen, hsmartmodules, hconsumer⟩ := h
  have hsm : ReadsBackAt version r.smartmodule (r.smartmodule.map (SmartModuleInvocation.atVersion version)) :=
    Option.readsBackAt _ fun s hs => SmartModuleInvocation.readsBackAt version (hsmartmodule s hs)
  have hds : ReadsBackAt version r.derivedstream
      (r.derivedstream.map (DerivedStreamInvocation.atVersion version)) :=
    Option.readsBackAt _ fun d hd => DerivedStreamInvocation.readsBackAt version (hderived d hd)
  have hsms : ReadsBackAt version r.smartmodules (r.smartmodules.map (SmartModuleInvocation.atVersion version)) :=
    Vec.readsBackAt _ (fun s hs => SmartModuleInvocation.readsBackAt version (hsmartmodules s hs)) hlen
  have hcid : ReadsBackAt version r.consumerId r.consumerId :=
    (Option.readsBack fun c hc => String.readsBack (hconsumer c hc)).readsBackAt version
  exact ReadsWrite.cons (plain.readsBackAt version fun _ => (String.readsBack htopic).readsBackAt version) <|
    ReadsWrite.cons (plain.readsBackAt version fun _ => (u32Width.roundTrips _ r.partition).readsBackAt version) <|
    ReadsWrite.cons (plain.readsBackAt version fun _ => (i64Width.roundTrips _ r.fetchOffset).readsBackAt version) <|
    ReadsWrite.cons (plain.readsBackAt version fun _ => (i32Width.roundTrips _ r.maxBytes).readsBackAt version) <|
    ReadsWrite.cons (plain.readsBackAt version fun _ => (Isolation.readsBack r.isolation).readsBackAt version) <|
    ReadsWrite.cons (wasmModuleVersions.readsBackAt version fun _ => bytes_readsBackAt hwasm version) <|
    ReadsWrite.cons (smartmoduleVersions.readsBackAt version fun _ => hsm) <|
    ReadsWrite.cons (smartmoduleVersions.readsBackAt version fun _ => hds) <|
    ReadsWrite.cons (smartmodulesVersions.readsBackAt version fun _ => hsms) <|
    ReadsWrite.cons (consumerIdVersions.readsBackAt version fun _ => hcid) (ReadsWrite.nil _)

/-- A stream fetch through a chain of one predefined filter that looks back ten records, from a
consumer with an id. -/
def chainRequest : StreamFetchRequest :=
  { (default : StreamFetchRequest) with
    topic := "events", maxBytes := 1048576, isolation := .readCommitted,
    smartmodules := [⟨.predefined "filter-odd", .filter, ⟨default, some ⟨10, none⟩⟩, some "filter-odd"⟩],
    consumerId := some "consumer-1" }

/-- Read at version 18, the chain arrives without its lookback and its name, and without the
consumer's id. -/
theorem chainRequest_readsBack_eighteen :
    ReadsBackAt 18 chainRequest { chainRequest with
      smartmodules := [⟨.predefined "filter-odd", .filter, ⟨default, none⟩, none⟩], consumerId := none } :=
  readsBackAt 18 (by decide)

/-- At every version, `write_size` of a request is the length of its encoding. -/
theorem sizeAgreesIn (version : Version) (r : StreamFetchRequest) : SizeAgreesIn version r := by
  have hsm : SizeAgreesIn version r.smartmodule :=
    Option.sizeAgreesIn fun s _ => SmartModuleInvocation.sizeAgreesIn version s
  have hds : SizeAgreesIn version r.derivedstream :=
    Option.sizeAgreesIn fun d _ => DerivedStreamInvocation.sizeAgreesIn version d
  have hsms : SizeAgreesIn version r.smartmodules :=
    Vec.sizeAgreesIn fun s _ => SmartModuleInvocation.sizeAgreesIn version s
  have hcid : SizeAgreesIn version r.consumerId :=
    (Option.sizeAgreesAt fun c _ => String.sizeAgrees c).sizeAgreesIn version
  show sumSizes [plain.writeSize version r.topic, plain.writeSize version r.partition,
      plain.writeSize version r.fetchOffset, plain.writeSize version r.maxBytes, plain.writeSize version r.isolation,
      wasmModuleVersions.writeSize version r.wasmModule, smartmoduleVersions.writeSize version r.smartmodule,
      smartmoduleVersions.writeSize version r.derivedstream, smartmodulesVersions.writeSize version r.smartmodules,
      consumerIdVersions.writeSize version r.consumerId] =
    (catWrites [plain.encode version r.topic, plain.encode version r.partition,
      plain.encode version r.fetchOffset, plain.encode version r.maxBytes, plain.encode version r.isolation,
      wasmModuleVersions.encode version r.wasmModule, smartmoduleVersions.encode version r.smartmodule,
      smartmoduleVersions.encode version r.derivedstream, smartmodulesVersions.encode version r.smartmodules,
      consumerIdVersions.encode version r.consumerId]).map List.length
  rw [plain.sizeAgreesIn version fun _ => (String.sizeAgrees r.topic).sizeAgreesIn version,
    plain.sizeAgreesIn version fun _ => (FixedWidth.sizeAgrees u32Width r.partition).sizeAgreesIn version,
    plain.sizeAgreesIn version fun _ => (FixedWidth.sizeAgrees i64Width r.fetchOffset).sizeAgreesIn version,
    plain.sizeAgreesIn version fun _ => (FixedWidth.sizeAgrees i32Width r.maxBytes).sizeAgreesIn version,
    plain.sizeAgreesIn version fun _ => (Isolation.sizeAgrees r.isolation).sizeAgreesIn version,
    wasmModuleVersions.sizeAgreesIn version fun _ => (bytes_sizeAgrees r.wasmModule).sizeAgreesIn version,
    smartmoduleVersions.sizeAgreesIn version fun _ => hsm, smartmoduleVersions.sizeAgreesIn version fun _ => hds,
    smartmodulesVersions.sizeAgreesIn version fun _ => hsms, consumerIdVersions.sizeAgreesIn version fun _ => hcid]
  exact sumSizes_map_length [_, _, _, _, _, _, _, _, _, _]

/-- At every version, the encoder of a request finishes. -/
theorem encodesAt (version : Version) (r : StreamFetchRequest) : EncodesAt version r :=
  catWrites_cons_isSome (plain.encode_isSome version fun _ => rfl) <|
  catWrites_cons_isSome (plain.encode_isSome version fun _ => rfl) <|
  catWrites_cons_isSome (plain.encode_isSome version fun _ => rfl) <|
  catWrites_cons_isSome (plain.encode_isSome version fun _ => rfl) <|
  catWrites_cons_isSome (plain.encode_isSome version fun _ => Isolation.encode_isSome r.isolation) <|
  catWrites_cons_isSome (wasmModuleVersions.encode_isSome version fun _ => bytes_encode_isSome r.wasmModule) <|
  catWrites_cons_isSome (smartmoduleVersions.encode_isSome version fun _ =>
    Option.encodesAt fun s _ => SmartModuleInvocation.encodesAt version s) <|
  catWrites_cons_isSome (smartmoduleVersions.encode_isSome version fun _ =>
    Option.encodesAt fun d _ => DerivedStreamInvocation.encodesAt version d) <|
  catWrites_cons_isSome (smartmodulesVersions.encode_isSome version fun _ =>
    Vec.encodesAt fun s _ => SmartModuleInvocation.encodesAt version s) <|
  catWrites_cons_isSome (consumerIdVersions.encode_isSome version fun _ => Option.encode_isSome fun _ _ => rfl) rfl

/-- From version 25 on, a request reads back whole but for its three fields of before version 19. -/
theorem atVersion_of_le {version : Version} (h : 25 ≤ version.toInt) (r : StreamFetchRequest) :
    r.atVersion version = { r with wasmModule := [], smartmodule := none, derivedstream := none } := by
  have hplain : plain.contains version = true := FieldVersions.contains_iff.mpr ⟨by simp [plain]; omega, by simp [plain]⟩
  have hwasm : wasmModuleVersions.contains version = false := by
    simp [wasmModuleVersions, FieldVersions.contains, Int16.le_iff_toInt_le]
    omega
  have hsm : smartmoduleVersions.contains version = false := by
    simp [smartmoduleVersions, FieldVersions.contains, Int16.le_iff_toInt_le]
    omega
  have hsms : smartmodulesVersions.contains version = true :=
    FieldVersions.contains_iff.mpr ⟨by simp [smartmodulesVersions]; omega, by simp [smartmodulesVersions]⟩
  have hcid : consumerIdVersions.contains version = true :=
    FieldVersions.contains_iff.mpr ⟨by simp [consumerIdVersions]; omega, by simp [consumerIdVersions]⟩
  have hmap : r.smartmodules.map (SmartModuleInvocation.atVersion version) = r.smartmodules :=
    List.map_id'' (fun s => SmartModuleInvocation.atVersion_of_le h s) r.smartmodules
  simp only [atVersion, FieldVersions.keep_of_contains hplain, FieldVersions.keep_of_not_contains hwasm,
    FieldVersions.keep_of_not_contains hsm, FieldVersions.keep_of_contains hsms, FieldVersions.keep_of_contains hcid,
    hmap]
  rfl

end StreamFetchRequest

end Fluvio.Spu
