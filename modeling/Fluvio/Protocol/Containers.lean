import Fluvio.Protocol.Core
import Mathlib.Data.String.Basic

/-!
The remaining codecs of `fluvio-protocol/src/core/encoder.rs` and `decoder.rs` that
carry values of the standard library: `Duration`, `String` and `BTreeMap<K, V>`.

Their length fields do not agree between the two sides. A `String`'s byte length is
written as `u16` and read back as `i16`, a non-positive length meaning the empty
string; a `BTreeMap`'s entry count is cut to `u16`; a `Vec`'s element count is written
as `u32` and read back as `i32` (`Fluvio.Protocol.Vec.readsBack`). Below those
thresholds every value reads back (`String.readsBack`, `BTreeMap.readsBack`); at them
the decoders return an empty value and leave the elements unread
(`String.decode_long`, `BTreeMap.decode_full`).
-/

namespace Fluvio.Protocol

open BigEndian Cursor

/-- `get_*` of the `bytes` crate, which the decoders call only after checking that
enough bytes remain. -/
def FixedWidth.read {α : Type} (f : FixedWidth α) : Decode α := do
  let bs ← Decoder.advance f.width
  pure (f.ofBits (value bs))

theorem FixedWidth.read_put {α : Type} (f : FixedWidth α) (x : α) (rest : List UInt8) :
    f.read (f.put x ++ rest) = .ok x rest := by
  rw [FixedWidth.read, bind_ok (by rw [← f.length_put x]; exact advance_append _ rest)]
  simp [FixedWidth.put, value_bytes_of_lt (f.toBits_lt x), f.ofBits_toBits]

@[simp] theorem u16Width_width : u16Width.width = 2 := rfl

/-! ### `Duration` -/

/-- `NANOS_PER_SEC`. -/
def nanosPerSec : Nat := 1000000000

/-- `std::time::Duration`: whole seconds, and the nanoseconds below a second. -/
structure Duration where
  secs : UInt64
  nanos : UInt32
  nanos_lt : nanos.toNat < nanosPerSec

instance : Inhabited Duration := ⟨⟨0, 0, by decide⟩⟩

theorem toNat_ofNat_mod_nanosPerSec (n : Nat) : (UInt32.ofNat (n % nanosPerSec)).toNat < nanosPerSec := by
  have hlt : n % nanosPerSec < nanosPerSec := Nat.mod_lt _ (by decide)
  rw [UInt32.toNat_ofNat', Nat.mod_eq_of_lt (by unfold nanosPerSec at hlt ⊢; omega)]
  exact hlt

/-- `Duration::new`: nanoseconds of a second or more carry into the seconds, and the
carry panics when it overflows them. -/
def Duration.new (secs : UInt64) (nanos : UInt32) : Decode Duration :=
  if h : nanos.toNat < nanosPerSec then pure ⟨secs, nanos, h⟩
  else if secs.toNat + nanos.toNat / nanosPerSec < 2 ^ 64 then
    pure ⟨secs + UInt64.ofNat (nanos.toNat / nanosPerSec), UInt32.ofNat (nanos.toNat % nanosPerSec),
      toNat_ofNat_mod_nanosPerSec _⟩
  else Decoder.fail (.panic "overflow in Duration::new")

/-- `Duration::encode`: `as_secs` as `u64`, then `subsec_nanos` as `u32`. -/
instance : Encoder Duration where
  writeSize _ := some 12
  encode d := some (u64Width.put d.secs ++ u32Width.put d.nanos)

/-- `Duration::decode`: twelve bytes, read as seconds and nanoseconds and handed to
`Duration::new`. -/
instance : Decoder Duration where
  decode := do
    if (← Decoder.remaining) < 12 then eof "can't read u64+u32 as parts of Duration"
    else
      let secs ← u64Width.read
      let nanos ← u32Width.read
      Duration.new secs nanos

theorem Duration.sizeAgrees : SizeAgrees Duration := by
  intro d
  show some 12 = some (u64Width.put d.secs ++ u32Width.put d.nanos).length
  simp [u64Width, u32Width]

theorem Duration.roundTrips : RoundTrips Duration := by
  intro d bs h rest _
  obtain rfl : u64Width.put d.secs ++ u32Width.put d.nanos = bs := Option.some.inj h
  have hlen : ¬ (u64Width.put d.secs ++ u32Width.put d.nanos ++ rest).length < 12 := by
    simp only [List.length_append, FixedWidth.length_put]
    show ¬ 8 + 4 + _ < 12
    omega
  show (do
      if (← Decoder.remaining) < 12 then eof "can't read u64+u32 as parts of Duration"
      else
        let secs ← u64Width.read
        let nanos ← u32Width.read
        Duration.new secs nanos : Decode Duration) _ = _
  rw [bind_ok (remaining_apply _), if_neg hlen, List.append_assoc, bind_ok (FixedWidth.read_put _ _ _),
    bind_ok (FixedWidth.read_put _ _ _), Duration.new, dif_pos d.nanos_lt]
  rfl

/-! ### `String` -/

/-- `String::encode`: the byte length cut to `u16`, then the UTF-8 bytes. -/
instance : Encoder String where
  writeSize s := some (2 + s.utf8ByteSize)
  encode s := some (u16Width.put (UInt16.ofNat s.utf8ByteSize) ++ s.toUTF8.data.toList)

/-- `decode_string`: `src.take(len as usize).reader().read_to_string(..)`, which takes the
bytes there are up to `len` and fails on invalid UTF-8, then the check that all `len`
were there. It is called with a positive `len`. -/
def decodeString (len : Int16) : Decode String := do
  let bytes ← Decoder.advance len.toInt.toNat
  match String.fromUTF8? ⟨bytes.toArray⟩ with
  | none => Decoder.fail (.io .invalidData "stream did not contain valid UTF-8")
  | some value => if bytes.length ≠ len.toInt.toNat then eof "not enough string" else pure value

/-- `String::decode`: the length as `i16`; a length of zero or below leaves the string empty. -/
instance : Decoder String where
  decode := do
    if (← Decoder.remaining) < 2 then eof "can't read string length"
    else
      let len ← i16Width.read
      if len ≤ 0 then pure "" else decodeString len

theorem String.length_toUTF8 (s : String) : s.toUTF8.data.toList.length = s.utf8ByteSize := by
  rw [Array.length_toList, String.toUTF8_eq_toByteArray]
  rfl

theorem String.sizeAgrees : SizeAgrees String := by
  intro s
  show some (2 + s.utf8ByteSize) = some (u16Width.put _ ++ s.toUTF8.data.toList).length
  rw [List.length_append, FixedWidth.length_put, String.length_toUTF8]
  rfl

theorem String.fromUTF8?_toUTF8 (s : String) : String.fromUTF8? ⟨s.toUTF8.data.toList.toArray⟩ = some s := by
  rw [Array.toArray_toList, String.fromUTF8?, String.toUTF8_eq_toByteArray, dif_pos s.isValidUTF8]
  rfl

/-- The length field as the decoder reads it: the byte length cut to `u16`, read as `i16`. -/
theorem String.read_length (s : String) (rest : List UInt8) :
    i16Width.read (u16Width.put (UInt16.ofNat s.utf8ByteSize) ++ rest) =
      .ok (UInt16.ofNat s.utf8ByteSize).toInt16 rest :=
  i16Width.read_put (UInt16.ofNat s.utf8ByteSize).toInt16 rest

/-- The decoder after the length check. -/
theorem String.decode_apply (s : String) (rest : List UInt8) :
    (Decoder.decode : Decode String) (u16Width.put (UInt16.ofNat s.utf8ByteSize) ++ s.toUTF8.data.toList ++ rest) =
      if (UInt16.ofNat s.utf8ByteSize).toInt16 ≤ 0 then .ok "" (s.toUTF8.data.toList ++ rest)
      else decodeString (UInt16.ofNat s.utf8ByteSize).toInt16 (s.toUTF8.data.toList ++ rest) := by
  have hlen : ¬ (u16Width.put (UInt16.ofNat s.utf8ByteSize) ++ s.toUTF8.data.toList ++ rest).length < 2 := by
    simp only [List.length_append, FixedWidth.length_put]
    show ¬ 2 + _ + _ < 2
    omega
  show (do
      if (← Decoder.remaining) < 2 then eof "can't read string length"
      else
        let len ← i16Width.read
        if len ≤ 0 then pure "" else decodeString len : Decode String) _ = _
  rw [bind_ok (remaining_apply _), if_neg hlen, List.append_assoc, bind_ok (String.read_length _ _)]
  split <;> rfl

/-- A string of fewer than `2 ^ 15` bytes reads back. -/
theorem String.readsBack {s : String} (hsize : s.utf8ByteSize < 2 ^ 15) : ReadsBack s := by
  intro bs h rest _
  obtain rfl : u16Width.put (UInt16.ofNat s.utf8ByteSize) ++ s.toUTF8.data.toList = bs := Option.some.inj h
  have hlen : ((UInt16.ofNat s.utf8ByteSize).toInt16).toInt = s.utf8ByteSize := by
    rw [UInt16.toInt16_ofNat']
    exact Int16.toInt_ofNat_of_lt hsize
  rw [String.decode_apply]
  by_cases hzero : s.utf8ByteSize = 0
  · -- the empty string: the length alone
    have hle : (UInt16.ofNat s.utf8ByteSize).toInt16 ≤ 0 := by
      rw [Int16.le_iff_toInt_le, hlen, hzero]
      decide
    have hempty : s.toUTF8.data.toList = [] := by
      rw [← List.length_eq_zero_iff, String.length_toUTF8, hzero]
    rw [if_pos hle, hempty, String.utf8ByteSize_eq_zero_iff.mp hzero]
    rfl
  · -- the bytes follow the length and are valid UTF-8
    have hpos : ¬ (UInt16.ofNat s.utf8ByteSize).toInt16 ≤ 0 := by
      rw [Int16.le_iff_toInt_le, hlen]
      simp only [Int16.toInt_zero, Nat.cast_nonpos]
      exact hzero
    rw [if_neg hpos, decodeString, hlen, Int.toNat_natCast, ← String.length_toUTF8,
      bind_ok (advance_append _ rest)]
    simp only [String.fromUTF8?_toUTF8, ne_eq, not_true_eq_false, if_false]
    rfl

/-- A string of `2 ^ 15` to `2 ^ 16` bytes has a negative length as `i16`: it decodes
as the empty string, and its bytes are left unread. -/
theorem String.decode_long {s : String} (hlo : 2 ^ 15 ≤ s.utf8ByteSize) (hhi : s.utf8ByteSize < 2 ^ 16)
    (rest : List UInt8) :
    (Decoder.decode : Decode String) (u16Width.put (UInt16.ofNat s.utf8ByteSize) ++ s.toUTF8.data.toList ++ rest) =
      .ok "" (s.toUTF8.data.toList ++ rest) := by
  have hneg : (UInt16.ofNat s.utf8ByteSize).toInt16 ≤ 0 := by
    rw [UInt16.toInt16_ofNat', Int16.le_iff_toInt_le, Int16.toInt_ofNat', Int.bmod_def,
      show (Int16.size : Int) = 2 ^ 16 from rfl]
    simp only [Int16.toInt_zero]
    split <;> omega
  rw [String.decode_apply, if_pos hneg]

/-- Such a string does not read back. -/
theorem String.not_readsBack_of_long {s : String} (hlo : 2 ^ 15 ≤ s.utf8ByteSize) (hhi : s.utf8ByteSize < 2 ^ 16) :
    ¬ ReadsBack s := by
  intro hreads
  have hbound : (u16Width.put (UInt16.ofNat s.utf8ByteSize) ++ s.toUTF8.data.toList ++ []).length < bufferLimit := by
    rw [List.append_nil, List.length_append, FixedWidth.length_put, String.length_toUTF8, u16Width_width]
    unfold bufferLimit isizeMax
    omega
  have hread := hreads _ rfl [] hbound
  rw [String.decode_long hlo hhi] at hread
  obtain ⟨hempty, -⟩ := Result.ok.inj hread
  rw [← hempty] at hlo
  exact absurd hlo (by decide)

/-! ### `BTreeMap<K, V>` -/

section BTreeMap

variable {K V : Type} [LinearOrder K]

/-- `BTreeMap<K, V>`: its entries, in strictly increasing key order. -/
@[ext] structure BTreeMap (K V : Type) [LinearOrder K] where
  entries : List (K × V)
  sorted : entries.Pairwise fun a b => a.1 < b.1

/-- `BTreeMap::new`. -/
def BTreeMap.empty : BTreeMap K V := ⟨[], .nil⟩

/-- `Default for BTreeMap`: `BTreeMap::new()`. -/
instance : Inhabited (BTreeMap K V) := ⟨BTreeMap.empty⟩

/-- The entries with `(k, v)` put in its place; a key already there keeps its place and
takes the new value. -/
def insertEntry (k : K) (v : V) : List (K × V) → List (K × V)
  | [] => [(k, v)]
  | e :: es =>
    if k < e.1 then (k, v) :: e :: es
    else if k = e.1 then (e.1, v) :: es
    else e :: insertEntry k v es

/-- An entry after an insertion is the inserted key or has a key of an entry before it. -/
theorem mem_insertEntry {k : K} {v : V} {es : List (K × V)} {p : K × V} (hp : p ∈ insertEntry k v es) :
    p.1 = k ∨ ∃ e ∈ es, e.1 = p.1 := by
  induction es with
  | nil =>
    rw [insertEntry, List.mem_singleton] at hp
    exact .inl (by rw [hp])
  | cons e es ih =>
    unfold insertEntry at hp
    split_ifs at hp with hlt heq
    · rcases List.mem_cons.mp hp with rfl | hp
      · exact .inl rfl
      · exact .inr ⟨p, hp, rfl⟩
    · rcases List.mem_cons.mp hp with rfl | hp
      · exact .inr ⟨e, List.mem_cons_self, rfl⟩
      · exact .inr ⟨p, List.mem_cons_of_mem e hp, rfl⟩
    · rcases List.mem_cons.mp hp with rfl | hp
      · exact .inr ⟨p, List.mem_cons_self, rfl⟩
      · rcases ih hp with hk | ⟨e', he', hkey⟩
        · exact .inl hk
        · exact .inr ⟨e', List.mem_cons_of_mem e he', hkey⟩

theorem insertEntry_sorted (k : K) (v : V) {es : List (K × V)} (h : es.Pairwise fun a b => a.1 < b.1) :
    (insertEntry k v es).Pairwise fun a b => a.1 < b.1 := by
  induction es with
  | nil => exact List.pairwise_singleton _ _
  | cons e es ih =>
    obtain ⟨hhead, htail⟩ := List.pairwise_cons.mp h
    unfold insertEntry
    split_ifs with hlt heq
    · -- in front of every entry
      refine List.pairwise_cons.mpr ⟨fun p hp => ?_, h⟩
      rcases List.mem_cons.mp hp with rfl | hp
      · exact hlt
      · exact hlt.trans (hhead p hp)
    · exact List.pairwise_cons.mpr ⟨hhead, htail⟩
    · -- further down: every key there is above the head's
      refine List.pairwise_cons.mpr ⟨fun p hp => ?_, ih htail⟩
      rcases mem_insertEntry hp with hk | ⟨e', he', hkey⟩
      · rw [hk]
        exact lt_of_le_of_ne (not_lt.mp hlt) (Ne.symm heq)
      · rw [← hkey]
        exact hhead e' he'

/-- An insertion above every key goes to the end. -/
theorem insertEntry_of_lt {k : K} {v : V} {es : List (K × V)} (h : ∀ e ∈ es, e.1 < k) :
    insertEntry k v es = es ++ [(k, v)] := by
  induction es with
  | nil => rfl
  | cons e es ih =>
    have hlt : e.1 < k := h e List.mem_cons_self
    rw [insertEntry, if_neg (not_lt.mpr hlt.le), if_neg (ne_of_gt hlt),
      ih fun e' he' => h e' (List.mem_cons_of_mem e he'), List.cons_append]

/-- `BTreeMap::insert`. -/
def BTreeMap.insert (m : BTreeMap K V) (k : K) (v : V) : BTreeMap K V :=
  ⟨insertEntry k v m.entries, insertEntry_sorted k v m.sorted⟩

/-- The keys and values, each key followed by its value. -/
def encodeEntries [Encoder K] [Encoder V] : List (K × V) → Option (List UInt8)
  | [] => some []
  | (k, v) :: es => do pure ((← encode k) ++ (← encode v) ++ (← encodeEntries es))

/-- `BTreeMap::write_size`: the `u16` length, then each key's and value's size. -/
def mapWriteSize [Encoder K] [Encoder V] (m : BTreeMap K V) : Option Nat :=
  m.entries.foldl (fun len e => addWriteSize (addWriteSize len e.1) e.2) (some 2)

/-- `BTreeMap::encode`: the number of entries cut to `u16`, then the entries. -/
instance [Encoder K] [Encoder V] : Encoder (BTreeMap K V) where
  writeSize := mapWriteSize
  encode m := do pure (u16Width.put (UInt16.ofNat m.entries.length) ++ (← encodeEntries m.entries))

/-- The loop of `BTreeMap::decode`: `n` more keys and values, each inserted. -/
def decodeEntries [Decoder K] [Decoder V] : Nat → BTreeMap K V → Decode (BTreeMap K V)
  | 0, map => pure map
  | n + 1, map => do
    let key ← (Decoder.decode : Decode K)
    let value ← (Decoder.decode : Decode V)
    decodeEntries n (map.insert key value)

/-- `BTreeMap::decode`: the `u16` length, then that many entries into an empty map. -/
instance [Decoder K] [Decoder V] : Decoder (BTreeMap K V) where
  decode := do
    let len ← (Decoder.decode : Decode UInt16)
    decodeEntries len.toNat BTreeMap.empty

theorem encode_map [Encoder K] [Encoder V] (m : BTreeMap K V) :
    encode m = (encodeEntries m.entries).map (u16Width.put (UInt16.ofNat m.entries.length) ++ ·) := by
  show (do pure (u16Width.put (UInt16.ofNat m.entries.length) ++ (← encodeEntries m.entries))) = _
  cases encodeEntries m.entries <;> rfl

theorem decode_map [Decoder K] [Decoder V] (n : Nat) (hn : n < 2 ^ 16) (rest : List UInt8) :
    (Decoder.decode : Decode (BTreeMap K V)) (u16Width.put (UInt16.ofNat n) ++ rest) =
      decodeEntries n BTreeMap.empty rest := by
  show ((Decoder.decode : Decode UInt16) >>= fun len => decodeEntries len.toNat BTreeMap.empty) _ = _
  have hlen : (Decoder.decode : Decode UInt16) (u16Width.put (UInt16.ofNat n) ++ rest) = .ok (UInt16.ofNat n) rest :=
    u16Width.get_put_apply "can't read u16" _ rest
  rw [bind_ok hlen, UInt16.toNat_ofNat', Nat.mod_eq_of_lt hn]

omit [LinearOrder K] in
/-- Entries whose keys and values encode encode. -/
theorem encodeEntries_isSome [Encoder K] [Encoder V] {es : List (K × V)}
    (h : ∀ e ∈ es, (encode e.1).isSome ∧ (encode e.2).isSome) : (encodeEntries es).isSome := by
  induction es with
  | nil => rfl
  | cons e es ih =>
    obtain ⟨a, b⟩ := e
    obtain ⟨ha, hb⟩ := h (a, b) List.mem_cons_self
    obtain ⟨ea, hea⟩ := Option.isSome_iff_exists.mp ha
    obtain ⟨eb, heb⟩ := Option.isSome_iff_exists.mp hb
    obtain ⟨ees, hees⟩ := Option.isSome_iff_exists.mp (ih fun e he => h e (List.mem_cons_of_mem _ he))
    simp [encodeEntries, hea, heb, hees]

theorem BTreeMap.encode_isSome [Encoder K] [Encoder V] {m : BTreeMap K V}
    (h : ∀ e ∈ m.entries, (encode e.1).isSome ∧ (encode e.2).isSome) : (encode m).isSome := by
  rw [encode_map, Option.isSome_map]
  exact encodeEntries_isSome h

/-- Decoding the encoded entries above every key of `map` inserts them in order. -/
theorem decodeEntries_encodeEntries [Encoder K] [Encoder V] [Decoder K] [Decoder V] :
    ∀ (es : List (K × V)) (bs : List UInt8) (map : BTreeMap K V) (rest : List UInt8),
      (es.Pairwise fun a b => a.1 < b.1) → (∀ a ∈ map.entries, ∀ e ∈ es, a.1 < e.1) →
      (∀ e ∈ es, ReadsBack e.1 ∧ ReadsBack e.2) → encodeEntries es = some bs →
      (bs ++ rest).length < bufferLimit →
      ∃ map', decodeEntries es.length map (bs ++ rest) = .ok map' rest ∧ map'.entries = map.entries ++ es
  | [], bs, map, rest, _, _, _, hbs, _ => by
    obtain rfl : [] = bs := Option.some.inj hbs
    exact ⟨map, rfl, (List.append_nil _).symm⟩
  | (k, v) :: es, bs, map, rest, hsorted, habove, hreads, hbs, hlen => by
    simp only [encodeEntries, Option.bind_eq_bind, Option.bind_eq_some_iff, Option.pure_def,
      Option.some.injEq] at hbs
    obtain ⟨ek, hk, ev, hv, ees, hes, rfl⟩ := hbs
    obtain ⟨hhead, htail⟩ := List.pairwise_cons.mp hsorted
    obtain ⟨hreadK, hreadV⟩ := hreads (k, v) List.mem_cons_self
    simp only [List.append_assoc, List.length_append] at hlen ⊢
    have hkey := hreadK ek hk (ev ++ (ees ++ rest)) (by simp only [List.length_append]; omega)
    have hvalue := hreadV ev hv (ees ++ rest) (by simp only [List.length_append]; omega)
    -- the key goes to the end of the map built so far
    have hinsert : (map.insert k v).entries = map.entries ++ [(k, v)] :=
      insertEntry_of_lt fun a ha => habove a ha (k, v) List.mem_cons_self
    have habove' : ∀ a ∈ (map.insert k v).entries, ∀ e ∈ es, a.1 < e.1 := by
      intro a ha e he
      rw [hinsert, List.mem_append, List.mem_singleton] at ha
      rcases ha with ha | rfl
      · exact habove a ha e (List.mem_cons_of_mem _ he)
      · exact hhead e he
    obtain ⟨map', hdec, hentries⟩ := decodeEntries_encodeEntries es ees (map.insert k v) rest htail habove'
      (fun e he => hreads e (List.mem_cons_of_mem _ he)) hes (by simp only [List.length_append]; omega)
    refine ⟨map', ?_, ?_⟩
    · rw [List.length_cons, decodeEntries, bind_ok hkey, bind_ok hvalue, hdec]
    · rw [hentries, hinsert, List.append_assoc, List.singleton_append]

/-- A map of fewer than `2 ^ 16` entries whose keys and values read back reads back. -/
theorem BTreeMap.readsBack [Encoder K] [Encoder V] [Decoder K] [Decoder V] {m : BTreeMap K V}
    (h : ∀ e ∈ m.entries, ReadsBack e.1 ∧ ReadsBack e.2) (hlen : m.entries.length < 2 ^ 16) : ReadsBack m := by
  intro bs hbs rest hbound
  rw [encode_map, Option.map_eq_some_iff] at hbs
  obtain ⟨es, hes, rfl⟩ := hbs
  rw [List.append_assoc] at hbound ⊢
  rw [decode_map _ hlen]
  obtain ⟨map', hdec, hentries⟩ := decodeEntries_encodeEntries m.entries es BTreeMap.empty rest m.sorted
    (fun a ha => absurd ha List.not_mem_nil) h hes
    (by simp only [List.length_append] at hbound ⊢; omega)
  rw [hdec]
  congr 1
  exact BTreeMap.ext hentries

/-- The step of `BTreeMap::write_size`: a key's and a value's size added. -/
def addEntrySize [Encoder K] [Encoder V] (len : Option Nat) (e : K × V) : Option Nat :=
  addWriteSize (addWriteSize len e.1) e.2

omit [LinearOrder K] in
theorem foldl_addEntrySize_none [Encoder K] [Encoder V] (es : List (K × V)) :
    es.foldl addEntrySize none = none := by
  induction es with
  | nil => rfl
  | cons e es ih => exact ih

omit [LinearOrder K] in
/-- The `write_size` fold over entries from `k` adds the length of their encodings. -/
theorem foldl_addEntrySize [Encoder K] [Encoder V] {es : List (K × V)}
    (h : ∀ e ∈ es, SizeAgreesAt e.1 ∧ SizeAgreesAt e.2) (k : Nat) :
    es.foldl addEntrySize (some k) = (encodeEntries es).map (k + ·.length) := by
  induction es generalizing k with
  | nil => simp [encodeEntries]
  | cons e es ih =>
    obtain ⟨a, b⟩ := e
    obtain ⟨ha, hb⟩ : SizeAgreesAt a ∧ SizeAgreesAt b := h (a, b) List.mem_cons_self
    have ih' := ih (fun e he => h e (List.mem_cons_of_mem _ he))
    rw [List.foldl_cons]
    cases hea : encode a with
    | none =>
      have hsize : writeSize a = none := by rw [ha, hea]; rfl
      simp [addEntrySize, addWriteSize, hsize, foldl_addEntrySize_none, encodeEntries, hea]
    | some ea =>
      cases heb : encode b with
      | none =>
        have hsize : writeSize b = none := by rw [hb, heb]; rfl
        simp [addEntrySize, addWriteSize, hsize, foldl_addEntrySize_none, encodeEntries, hea, heb]
      | some eb =>
        have hsa : writeSize a = some ea.length := by rw [ha, hea]; rfl
        have hsb : writeSize b = some eb.length := by rw [hb, heb]; rfl
        have hstep : addEntrySize (some k) (a, b) = some (k + ea.length + eb.length) := by
          simp [addEntrySize, addWriteSize, hsa, hsb]
        rw [hstep, ih']
        cases hes : encodeEntries es <;> simp [encodeEntries, hea, heb, hes, Nat.add_assoc]

/-- A map whose keys' and values' sizes agree with their encodings has a size that agrees. -/
theorem BTreeMap.sizeAgreesAt [Encoder K] [Encoder V] {m : BTreeMap K V}
    (h : ∀ e ∈ m.entries, SizeAgreesAt e.1 ∧ SizeAgreesAt e.2) : SizeAgreesAt m := by
  show m.entries.foldl addEntrySize (some 2) = (encode m).map List.length
  rw [foldl_addEntrySize h, encode_map]
  cases encodeEntries m.entries <;> simp [u16Width]

/-- A map whose number of entries is a non-zero multiple of `2 ^ 16` has a length field of
zero: it decodes as the empty map, and its entries are left unread. -/
theorem BTreeMap.decode_full [Encoder K] [Encoder V] [Decoder K] [Decoder V] {m : BTreeMap K V}
    (hlen : m.entries.length % 2 ^ 16 = 0) {es : List UInt8} (hes : encodeEntries m.entries = some es)
    (rest : List UInt8) :
    encode m = some (u16Width.put (UInt16.ofNat m.entries.length) ++ es) ∧
      (Decoder.decode : Decode (BTreeMap K V)) (u16Width.put (UInt16.ofNat m.entries.length) ++ es ++ rest) =
        .ok BTreeMap.empty (es ++ rest) := by
  have hzero : UInt16.ofNat m.entries.length = UInt16.ofNat 0 :=
    (UInt16.ofNat_eq_iff_mod_eq_toNat _ 0).mpr hlen
  refine ⟨by rw [encode_map, hes]; rfl, ?_⟩
  rw [List.append_assoc, hzero, decode_map 0 (by decide)]
  rfl

end BTreeMap

/-! ### The codecs together -/

/-- The UTF-8 length of a string of one repeated character. -/
theorem utf8Len_replicate (n : Nat) (c : Char) : String.utf8Len (List.replicate n c) = n * c.utf8Size := by
  induction n with
  | zero => simp
  | succ n ih => rw [List.replicate_succ, String.utf8Len_cons, ih, Nat.succ_mul]

end Fluvio.Protocol
