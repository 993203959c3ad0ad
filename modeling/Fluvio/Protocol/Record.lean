import Fluvio.Protocol.Varint

/-!
Records (`fluvio-protocol/src/record/data.rs`): `RecordData`, the derived
`RecordHeader` and `Record<B>`, with their hand-written `write_size`, `encode`
and `decode`.

A record is length-prefixed by a varint, and so is the data of its key and value;
the header's two deltas and the trailing `headers` field are varints too. The
decoders trust these lengths in different ways: `Record::decode` checks its
length against the remaining input and then decodes its fields from the whole
input, not from the length it read; `RecordData::decode` checks nothing, casts
its length to `usize` and asks for a buffer of that capacity, then copies as many
bytes as there are (`RecordData.decode_negative_length` is the panic a negative
length causes).
-/

namespace Fluvio.Protocol

open Cursor

/-- `RecordData(Bytes)`: the bytes of a key or a value. -/
structure RecordData where
  bytes : List UInt8
deriving DecidableEq, Repr, Inhabited

/-- `RecordData::write_size`: the varint of the length, then one per byte. -/
def RecordData.writeSize (d : RecordData) : Option Nat := do
  let len ← variantSize (Int64.ofNat d.bytes.length)
  pure (d.bytes.foldl (fun sum _ => sum + 1) len)

/-- `RecordData::encode`: the varint of the length, then the bytes. -/
def RecordData.encode (d : RecordData) : Option (List UInt8) := do
  let len ← variantEncode (Int64.ofNat d.bytes.length)
  pure (len ++ d.bytes)

/-- `RecordData::decode`. `BytesMut::with_capacity(len)` panics above `isize::MAX`;
`bytes.put(src.take(len))` copies the bytes there are, up to `len`. -/
def RecordData.decode : Decode RecordData := do
  let len ← decodeVarint
  let len := Int64.asUsize len
  if isizeMax < len then Decoder.fail (.panic "capacity overflow")
  else
    let bs ← Decoder.advance len
    pure ⟨bs⟩

instance : Encoder RecordData := ⟨RecordData.writeSize, RecordData.encode⟩
instance : Decoder RecordData := ⟨RecordData.decode⟩

/-- A negative length is an unchecked capacity of almost `2 ^ 64` bytes. -/
theorem RecordData.decode_negative_length {bytes rest : List UInt8} {len : Int64}
    (hlen : decodeVarint bytes = .ok len rest) (hneg : len.toInt < 0) :
    RecordData.decode bytes = .error (.panic "capacity overflow") rest := by
  -- the cast keeps the bits, and a negative `i64` has the top one set
  have hbig : isizeMax < Int64.asUsize len := by
    have := Bits.toNat_ge_of_neg hneg
    show isizeMax < len.toBitVec.toNat
    unfold isizeMax
    omega
  rw [RecordData.decode, bind_ok hlen]
  simp [hbig]

example : RecordData.decode [0x01] = .error (.panic "capacity overflow") [] := by decide

/-- `RecordHeader`, with `#[varint]` on its two deltas. -/
structure RecordHeader where
  attributes : Int8
  timestampDelta : Int64
  offsetDelta : Int64
deriving DecidableEq, Repr, Inhabited

/-- The derived `write_size` of `RecordHeader`. -/
def RecordHeader.writeSize (h : RecordHeader) : Option Nat := do
  pure (1 + (← variantSize h.timestampDelta) + (← variantSize h.offsetDelta))

/-- The derived `encode` of `RecordHeader`. -/
def RecordHeader.encode (h : RecordHeader) : Option (List UInt8) := do
  pure (i8Width.put h.attributes ++ (← variantEncode h.timestampDelta) ++
    (← variantEncode h.offsetDelta))

/-- The derived `decode` of `RecordHeader`. -/
def RecordHeader.decode : Decode RecordHeader := do
  let attributes ← (Decoder.decode : Decode Int8)
  let timestampDelta ← decodeVarint
  let offsetDelta ← decodeVarint
  pure ⟨attributes, timestampDelta, offsetDelta⟩

instance : Encoder RecordHeader := ⟨RecordHeader.writeSize, RecordHeader.encode⟩
instance : Decoder RecordHeader := ⟨RecordHeader.decode⟩

/-- `Record<B>`: a header, an optional key, a value and the `headers` count. -/
structure Record (B : Type) where
  preamble : RecordHeader
  key : Option B
  value : B
  headers : Int64
deriving DecidableEq, Repr

instance {B : Type} [Inhabited B] : Inhabited (Record B) := ⟨⟨default, none, default, 0⟩⟩

section Record

variable {B : Type}

/-- `Record::write_size`: the fields, then the varint of their total in front. -/
def Record.writeSize [Encoder B] (r : Record B) : Option Nat := do
  let inner := (← Encoder.writeSize r.preamble) + (← Encoder.writeSize r.key) +
    (← Encoder.writeSize r.value) + (← variantSize r.headers)
  pure ((← variantSize (Int64.ofNat inner)) + inner)

/-- `Record::encode`: the fields into `out`, then `out.len()` as a varint and `out`. -/
def Record.encode [Encoder B] (r : Record B) : Option (List UInt8) := do
  let out := (← Encoder.encode r.preamble) ++ (← Encoder.encode r.key) ++
    (← Encoder.encode r.value) ++ (← variantEncode r.headers)
  pure ((← variantEncode (Int64.ofNat out.length)) ++ out)

/-- `Record::decode`: the length is compared with what remains, then the fields are
decoded from the input as it is. -/
def Record.decode [Decoder B] : Decode (Record B) := do
  let len ← decodeVarint
  if Int64.ofNat (← Decoder.remaining) < len then eof "not enough for record"
  else
    let preamble ← RecordHeader.decode
    let key ← (Decoder.decode : Decode (Option B))
    let value ← (Decoder.decode : Decode B)
    let headers ← decodeVarint
    pure ⟨preamble, key, value, headers⟩

instance [Encoder B] : Encoder (Record B) := ⟨Record.writeSize, Record.encode⟩
instance [Decoder B] : Decoder (Record B) := ⟨Record.decode⟩

/-- `RecordHeader::set_offset_delta` on the record's header. -/
def Record.setOffsetDelta (r : Record B) (delta : Int64) : Record B :=
  { r with preamble := { r.preamble with offsetDelta := delta } }

/-- `RecordHeader::set_timestamp_delta` on the record's header. -/
def Record.setTimestampDelta (r : Record B) (delta : Int64) : Record B :=
  { r with preamble := { r.preamble with timestampDelta := delta } }

end Record

/-! ### Sizes -/

theorem RecordData.sizeAgrees : SizeAgrees RecordData := by
  intro d
  show RecordData.writeSize d = (RecordData.encode d).map List.length
  simp only [RecordData.writeSize, RecordData.encode, variantSize_eq]
  cases variantEncode (Int64.ofNat d.bytes.length) <;> simp

theorem RecordHeader.sizeAgrees : SizeAgrees RecordHeader := by
  intro h
  show RecordHeader.writeSize h = (RecordHeader.encode h).map List.length
  simp only [RecordHeader.writeSize, RecordHeader.encode, variantSize_eq]
  cases variantEncode h.timestampDelta <;> cases variantEncode h.offsetDelta <;>
    simp [i8Width, Nat.add_assoc]

theorem Record.sizeAgrees {B : Type} [Encoder B] (hB : SizeAgrees B) : SizeAgrees (Record B) := by
  intro r
  show Record.writeSize r = (Record.encode r).map List.length
  have hpre : Encoder.writeSize r.preamble = (Encoder.encode r.preamble).map List.length :=
    RecordHeader.sizeAgrees r.preamble
  have hkey : Encoder.writeSize r.key = (Encoder.encode r.key).map List.length :=
    Option.sizeAgreesAt fun v _ => hB v
  have hval : Encoder.writeSize r.value = (Encoder.encode r.value).map List.length := hB r.value
  simp only [Record.writeSize, Record.encode, hpre, hkey, hval, variantSize_eq]
  cases Encoder.encode r.preamble <;> cases Encoder.encode r.key <;> cases Encoder.encode r.value <;>
    cases variantEncode r.headers <;> simp [Nat.add_assoc, Option.bind_map]

/-! ### Round trips -/

theorem decodeVarint_readsBack {n : Int64} (h : VarintRange n) :
    ∃ bs, variantEncode n = some bs ∧ ReadsExactly bufferLimit decodeVarint bs n :=
  decodeVarint_variantEncode h bufferLimit

/-- Data shorter than `2 ^ 31` bytes reads back: its length is a varint of an `i32`. -/
theorem RecordData.readsBack {d : RecordData} (h : d.bytes.length < 2 ^ 31) : ReadsBack d := by
  obtain ⟨lb, hlb, hread⟩ := decodeVarint_readsBack (varintRange_ofNat h)
  intro bs hbs rest hlen
  change RecordData.encode d = some bs at hbs
  simp only [RecordData.encode, hlb, Option.bind_eq_bind, Option.bind_some, Option.pure_def,
    Option.some.injEq] at hbs
  subst hbs
  rw [List.append_assoc] at hlen ⊢
  have hcap : ¬ isizeMax < d.bytes.length := by
    unfold isizeMax
    omega
  show RecordData.decode (lb ++ (d.bytes ++ rest)) = .ok d rest
  have hlen64 : d.bytes.length < 2 ^ 64 := by omega
  simp [RecordData.decode, hread _ hlen, Int64.asUsize_ofNat hlen64, hcap]
theorem RecordHeader.readsBack {h : RecordHeader} (ht : VarintRange h.timestampDelta)
    (ho : VarintRange h.offsetDelta) : ReadsBack h := by
  obtain ⟨tb, htb, hts⟩ := decodeVarint_readsBack ht
  obtain ⟨ob, hob, hos⟩ := decodeVarint_readsBack ho
  intro bs hbs
  change RecordHeader.encode h = some bs at hbs
  simp only [RecordHeader.encode, htb, hob, Option.bind_eq_bind, Option.bind_some, Option.pure_def,
    Option.some.injEq] at hbs
  subst hbs
  rw [show i8Width.put h.attributes ++ tb ++ ob = i8Width.put h.attributes ++ (tb ++ (ob ++ [])) by simp]
  refine ReadsExactly.bind (i8Width.get_put _ h.attributes bufferLimit) ?_
  refine ReadsExactly.bind hts ?_
  refine ReadsExactly.bind hos ?_
  exact ReadsExactly.pure h

theorem Record.readsBack {B : Type} [Encoder B] [Decoder B] {r : Record B}
    (hpre : ReadsBack r.preamble) (hkey : ∀ v, r.key = some v → ReadsBack v) (hval : ReadsBack r.value)
    (hheaders : VarintRange r.headers) (hfit : ∀ bs, Record.encode r = some bs → bs.length < 2 ^ 31) :
    ReadsBack r := by
  intro bs hbs
  change Record.encode r = some bs at hbs
  have hfit' := hfit bs hbs
  obtain ⟨hb, hhb, hheads⟩ := decodeVarint_readsBack hheaders
  simp only [Record.encode, Option.bind_eq_bind, hhb] at hbs
  cases hp : Encoder.encode r.preamble with
  | none => simp [hp] at hbs
  | some pb =>
  cases hk : Encoder.encode r.key with
  | none => simp [hp, hk] at hbs
  | some kb =>
  cases hv : Encoder.encode r.value with
  | none => simp [hp, hk, hv] at hbs
  | some vb =>
  simp only [hp, hk, hv, Option.bind_some, Option.pure_def] at hbs
  set out := pb ++ kb ++ vb ++ hb with hout
  cases hl : variantEncode (Int64.ofNat out.length) with
  | none => simp [hl] at hbs
  | some lb =>
  simp only [hl, Option.bind_some, Option.some.injEq] at hbs
  subst hbs
  have hout31 : out.length < 2 ^ 31 := by
    simp only [List.length_append] at hfit' ⊢
    omega
  obtain ⟨lb', hlb', hlen⟩ := decodeVarint_readsBack (varintRange_ofNat hout31)
  obtain rfl : lb = lb' := Option.some.inj (hl.symm.trans hlb')
  have hfields : ReadsExactly bufferLimit
      (do
        let preamble ← RecordHeader.decode
        let key ← (Decoder.decode : Decode (Option B))
        let value ← (Decoder.decode : Decode B)
        let headers ← decodeVarint
        pure (⟨preamble, key, value, headers⟩ : Record B))
      (pb ++ (kb ++ (vb ++ (hb ++ [])))) r := by
    refine ReadsExactly.bind (hpre pb hp) ?_
    refine ReadsExactly.bind (Option.readsBack hkey kb hk) ?_
    refine ReadsExactly.bind (hval vb hv) ?_
    refine ReadsExactly.bind hheads ?_
    exact ReadsExactly.pure r
  intro rest hrest
  rw [List.append_assoc] at hrest ⊢
  have hcmp : ¬ Int64.ofNat (out ++ rest).length < Int64.ofNat out.length := by
    simp only [List.length_append] at hrest ⊢
    rw [Bits.ofNat_lt_ofNat (by unfold bufferLimit isizeMax at hrest; omega) (by omega)]
    omega
  show Record.decode (lb ++ (out ++ rest)) = .ok r rest
  simp only [Record.decode, bind_apply, hlen _ hrest, Result.andThen_ok, remaining_apply, hcmp, if_false]
  have hbytes : pb ++ (kb ++ (vb ++ (hb ++ []))) = out := by simp [hout]
  rw [hbytes] at hfields
  exact hfields rest (by simp only [List.length_append] at hrest ⊢; omega)
/-! ### Records the codec carries -/

/-- A record every field of which the codec carries: the varint fields are values of an
`i32`, and key and value are shorter than `2 ^ 31` bytes. -/
def Record.Fits (r : Record RecordData) : Prop :=
  VarintRange r.preamble.timestampDelta ∧ VarintRange r.preamble.offsetDelta ∧
    VarintRange r.headers ∧ (∀ k ∈ r.key, k.bytes.length < 2 ^ 31) ∧ r.value.bytes.length < 2 ^ 31

instance : DecidablePred Record.Fits := fun _ => inferInstanceAs (Decidable (_ ∧ _ ∧ _ ∧ _ ∧ _))

theorem RecordData.encode_eq {d : RecordData} (h : d.bytes.length < 2 ^ 31) :
    ∃ lb, RecordData.encode d = some (lb ++ d.bytes) ∧ lb.length ≤ 11 := by
  obtain ⟨lb, hlb, -⟩ := decodeVarint_readsBack (varintRange_ofNat h)
  exact ⟨lb, by simp [RecordData.encode, hlb], length_variantEncode hlb⟩

theorem RecordHeader.encode_eq {h : RecordHeader} (ht : VarintRange h.timestampDelta)
    (ho : VarintRange h.offsetDelta) :
    ∃ bs, RecordHeader.encode h = some bs ∧ bs.length ≤ 23 := by
  obtain ⟨tb, htb, -⟩ := decodeVarint_readsBack ht
  obtain ⟨ob, hob, -⟩ := decodeVarint_readsBack ho
  refine ⟨i8Width.put h.attributes ++ tb ++ ob, by simp [RecordHeader.encode, htb, hob], ?_⟩
  have := length_variantEncode htb
  have := length_variantEncode hob
  simp [i8Width]
  omega

theorem Record.encode_isSome {r : Record RecordData} (h : r.Fits) : (Record.encode r).isSome := by
  obtain ⟨ht, ho, hh, hk, hv⟩ := h
  obtain ⟨pb, hpb, hpl⟩ := RecordHeader.encode_eq ht ho
  obtain ⟨vb, hvb, hvl⟩ := RecordData.encode_eq hv
  have hpb' : Encoder.encode r.preamble = some pb := hpb
  have hvb' : Encoder.encode r.value = some (vb ++ r.value.bytes) := hvb
  obtain ⟨hb, hhb, -⟩ := decodeVarint_readsBack hh
  have hkey : ∃ kb, Encoder.encode r.key = some kb ∧ kb.length < 2 ^ 32 := by
    cases hr : r.key with
    | none => exact ⟨[0], rfl, by simp⟩
    | some k =>
      obtain ⟨lb, hlb, hll⟩ := RecordData.encode_eq (hk k hr)
      refine ⟨[1] ++ (lb ++ k.bytes), ?_, ?_⟩
      · show (RecordData.encode k).bind (fun e => some ([1] ++ e)) = _
        rw [hlb]
        rfl
      · have := hk k hr
        simp
        omega
  obtain ⟨kb, hkb, hkl⟩ := hkey
  have hout : (pb ++ kb ++ (vb ++ r.value.bytes) ++ hb).length < 2 ^ 62 := by
    have := length_variantEncode hhb
    simp only [List.length_append]
    omega
  obtain ⟨lb, hlb⟩ := Option.isSome_iff_exists.mp (variantEncode_isSome
    (n := Int64.ofNat (pb ++ kb ++ (vb ++ r.value.bytes) ++ hb).length)
    (by rw [Int64.toInt_ofNat_of_lt (by omega)]; omega) (by rw [Int64.toInt_ofNat_of_lt (by omega)]; omega))
  simp only [Record.encode, hpb', hkb, hvb', hhb, hlb, Option.bind_eq_bind, Option.bind_some,
    Option.pure_def, Option.isSome_some]

/-- A record is never encoded as no bytes: its length comes first. -/
theorem Record.encode_ne_nil {B : Type} [Encoder B] {r : Record B} {bs : List UInt8}
    (h : Record.encode r = some bs) : bs ≠ [] := by
  simp only [Record.encode, Option.bind_eq_bind, Option.bind_eq_some_iff, Option.pure_def,
    Option.some.injEq] at h
  obtain ⟨pb, -, kb, -, vb, -, hb, -, lb, hlb, rfl⟩ := h
  have := variantEncodeLoop_ne_nil 10 _ hlb
  simp_all

theorem Record.readsBack_of_fits {r : Record RecordData} (h : r.Fits)
    (hfit : ∀ bs, Record.encode r = some bs → bs.length < 2 ^ 31) : ReadsBack r := by
  obtain ⟨ht, ho, hh, hk, hv⟩ := h
  exact Record.readsBack (RecordHeader.readsBack ht ho) (fun k hr => RecordData.readsBack (hk k hr))
    (RecordData.readsBack hv) hh hfit

end Fluvio.Protocol
