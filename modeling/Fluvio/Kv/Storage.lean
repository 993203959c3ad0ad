import Fluvio.Protocol.Core
import Mathlib.Data.List.AList

/-!
The log-based key-value storage (`fluvio-kv-storage/src/log.rs`) over the log of raw entries
that `impl Log for &mut Vec<Vec<u8>>` keeps.

`put` and `delete` append one entry and update the cache; `flush` appends a checkpoint followed
by a snapshot of the cache; `sync_from_log` replays, from an empty cache and oldest first, the
entries after the last checkpoint.

* `LogBasedKVStorage.Replays` — the log replays to the cache; `put`, `delete` and `flush` keep
  it, for keys and values whose codecs round-trip and whose encodings are shorter than `2 ^ 31`
  bytes (the `Vec<u8>` fields of an entry carry no more);
* `LogBasedKVStorage.syncFromLog_run` — so a new storage over the log a run of operations leaves
  holds the entries of the storage that ran them;
* `wideKey_replayed_wrong` — without the bound: `Vec<u8>` writes its length as `u32` and reads
  it as `i32`, and a key of `2 ^ 31` bytes comes back as another key.
-/

namespace Fluvio.Kv

open Protocol Cursor

/-- `Entry`, with its `#[fluvio(tag)]`s. -/
inductive Entry where
  | recordUpdated (key value : List UInt8)
  | recordDeleted (key : List UInt8)
  | checkpoint
  deriving DecidableEq, Repr

/-- The derived `write_size` of `Entry`. -/
def Entry.writeSize : Entry → Option Nat
  | .recordUpdated key value => do pure (1 + (← Encoder.writeSize key) + (← Encoder.writeSize value))
  | .recordDeleted key => do pure (1 + (← Encoder.writeSize key))
  | .checkpoint => some 1

/-- The derived `encode` of `Entry`: the tag as `u8`, then the fields. -/
def Entry.encode : Entry → Option (List UInt8)
  | .recordUpdated key value => do pure (u8Width.put 0 ++ (← Encoder.encode key) ++ (← Encoder.encode value))
  | .recordDeleted key => do pure (u8Width.put 1 ++ (← Encoder.encode key))
  | .checkpoint => some (u8Width.put 2)

/-- The derived `decode` of `Entry`. -/
def Entry.decode : Decode Entry := do
  let typ ← (Decoder.decode : Decode UInt8)
  if typ = 0 then
    let key ← (Decoder.decode : Decode (List UInt8))
    let value ← (Decoder.decode : Decode (List UInt8))
    pure (.recordUpdated key value)
  else if typ = 1 then
    let key ← (Decoder.decode : Decode (List UInt8))
    pure (.recordDeleted key)
  else if typ = 2 then
    pure .checkpoint
  else
    Decoder.fail (.io .invalidData s!"Unknown Entry type {typ}")

instance : Encoder Entry := ⟨Entry.writeSize, Entry.encode⟩
instance : Decoder Entry := ⟨Entry.decode⟩

/-- The errors of the storage: a decoding error, and the one `replay` raises itself. -/
inductive KvError where
  | decode (err : DecodeError)
  | unexpectedCheckpoint
  deriving DecidableEq, Repr

/-- `decode`: a value read from the start of the bytes, whatever follows it. -/
def decode {T : Type} [Decoder T] (bytes : List UInt8) : Except KvError T :=
  match (Decoder.decode : Decode T) bytes with
  | .ok x _ => .ok x
  | .error err _ => .error (.decode err)

/-- The raw entries of the log, oldest first. -/
abbrev RawLog := List (List UInt8)

/-- `EntriesLog::read_from_end`: the entries newest first, each decoded. -/
def EntriesLog.readFromEnd (log : RawLog) : List (Except KvError Entry) :=
  log.reverse.map decode

/-- `EntriesLog::append_batch`: the entries encoded and appended. -/
def EntriesLog.appendBatch (log : RawLog) (entries : List Entry) : Option RawLog := do
  let encoded ← entries.mapM Encoder.encode
  pure (log ++ encoded)

/-- `LogBasedKVStorage` over a log of raw entries; the `HashMap` cache is a map of keys to
values. -/
structure LogBasedKVStorage (K V : Type) [DecidableEq K] where
  cache : AList fun _ : K => V
  log : RawLog

section Storage

variable {K V : Type} [DecidableEq K] [Encoder K] [Decoder K] [Encoder V] [Decoder V]

/-- `LogBasedKVStorage::new`. -/
def LogBasedKVStorage.new (log : RawLog) : LogBasedKVStorage K V := ⟨∅, log⟩

/-- `KVStorage::get`. -/
def LogBasedKVStorage.get (s : LogBasedKVStorage K V) (key : K) : Option V := s.cache.lookup key

/-- `KVStorage::entries`. -/
def LogBasedKVStorage.entries (s : LogBasedKVStorage K V) : List (K × V) :=
  s.cache.entries.map fun e => (e.1, e.2)

/-- `KVStorage::delete`; `none` when an encoder does not return. -/
def LogBasedKVStorage.delete (s : LogBasedKVStorage K V) (key : K) : Option (LogBasedKVStorage K V) := do
  let cache := s.cache.erase key
  let log ← EntriesLog.appendBatch s.log [.recordDeleted (← Encoder.encode key)]
  pure ⟨cache, log⟩

/-- `KVStorage::put`. -/
def LogBasedKVStorage.put (s : LogBasedKVStorage K V) (key : K) (value : V) :
    Option (LogBasedKVStorage K V) := do
  let log ← EntriesLog.appendBatch s.log [.recordUpdated (← Encoder.encode key) (← Encoder.encode value)]
  pure ⟨s.cache.insert key value, log⟩

/-- The snapshot entry `flush` writes for one cached pair. -/
def snapshotEntry (e : Sigma fun _ : K => V) : Option Entry := do
  pure (.recordUpdated (← Encoder.encode e.1) (← Encoder.encode e.2))

/-- `LogBasedKVStorage::flush`: a checkpoint, then every cached pair. -/
def LogBasedKVStorage.flush (s : LogBasedKVStorage K V) : Option (LogBasedKVStorage K V) := do
  let updates ← s.cache.entries.mapM snapshotEntry
  let log ← EntriesLog.appendBatch s.log (.checkpoint :: updates)
  pure { s with log }

/-- One iteration of `replay`'s loop. -/
def applyEntry (cache : AList fun _ : K => V) : Except KvError Entry → Except KvError (AList fun _ : K => V)
  | .error e => .error e
  | .ok (.recordUpdated key value) => do pure (cache.insert (← decode key) (← decode value))
  | .ok (.recordDeleted key) => do pure (cache.erase (← decode key))
  | .ok .checkpoint => .error .unexpectedCheckpoint

/-- The `take_while` test of `replay`. -/
def isNotCheckpoint : Except KvError Entry → Bool
  | .ok .checkpoint => false
  | _ => true

/-- `LogBasedKVStorage::replay`: the entries after the last checkpoint, oldest first, from an
empty cache. -/
def replay (log : RawLog) : Except KvError (AList fun _ : K => V) :=
  let lastEntries := (EntriesLog.readFromEnd log).takeWhile isNotCheckpoint
  lastEntries.reverse.foldlM applyEntry ∅

/-- `LogBasedKVStorage::sync_from_log`. -/
def LogBasedKVStorage.syncFromLog (s : LogBasedKVStorage K V) : Except KvError (LogBasedKVStorage K V) := do
  pure { s with cache := ← replay s.log }

/-- The operations of a run. -/
inductive Op (K V : Type) where
  | put (key : K) (value : V)
  | delete (key : K)
  | flush

/-- One operation on the storage. -/
def LogBasedKVStorage.apply (s : LogBasedKVStorage K V) : Op K V → Option (LogBasedKVStorage K V)
  | .put key value => s.put key value
  | .delete key => s.delete key
  | .flush => s.flush

/-- A run of operations, each of which returns. -/
def LogBasedKVStorage.run (s : LogBasedKVStorage K V) (ops : List (Op K V)) : Option (LogBasedKVStorage K V) :=
  ops.foldlM LogBasedKVStorage.apply s

end Storage

/-! ### Entries read back -/

/-- Each byte is encoded as itself. -/
theorem encodeAll_bytes (xs : List UInt8) : ∃ ys, encodeAll xs = some ys ∧ ys.length = xs.length := by
  induction xs with
  | nil => exact ⟨[], rfl, rfl⟩
  | cons x xs ih =>
    obtain ⟨ys, hys, hlen⟩ := ih
    refine ⟨u8Width.put x ++ ys, by simp [encodeAll, hys]; rfl, ?_⟩
    simp [FixedWidth.length_put, hlen, u8Width, Nat.add_comm]

/-- `Vec<u8>::encode`: the length, then a byte per byte. -/
theorem encode_bytes (bs : List UInt8) : ∃ out, Encoder.encode bs = some out ∧ out.length = 4 + bs.length := by
  obtain ⟨ys, hys, hlen⟩ := encodeAll_bytes bs
  refine ⟨u32Width.put (UInt32.ofNat bs.length) ++ ys, by simp [Encoder.encode, vecEncode, hys], ?_⟩
  simp [FixedWidth.length_put, hlen, u32Width]

/-- Bytes of fewer than `2 ^ 31` carried as a `Vec<u8>` read back. -/
theorem bytes_readsBack {bs : List UInt8} (h : bs.length < 2 ^ 31) : ReadsBack bs :=
  Vec.readsBack (fun x _ => FixedWidth.roundTrips u8Width "not enough buf for u8" x) h

/-- An entry whose byte fields fit a `Vec<u8>`. -/
def Entry.Fits : Entry → Prop
  | .recordUpdated key value => key.length < 2 ^ 31 ∧ value.length < 2 ^ 31
  | .recordDeleted key => key.length < 2 ^ 31
  | .checkpoint => True

theorem Entry.readsBack {e : Entry} (h : e.Fits) : ReadsBack e := by
  intro bs hbs
  change Entry.encode e = some bs at hbs
  cases e with
  | recordUpdated key value =>
    obtain ⟨hk, hv⟩ := h
    simp only [Entry.encode, Option.bind_eq_bind, Option.bind_eq_some_iff, Option.pure_def,
      Option.some.injEq] at hbs
    obtain ⟨kb, hkb, vb, hvb, rfl⟩ := hbs
    rw [show u8Width.put 0 ++ kb ++ vb = u8Width.put 0 ++ (kb ++ (vb ++ [])) by simp]
    refine ReadsExactly.bind (u8Width.get_put _ 0 bufferLimit) ?_
    refine ReadsExactly.bind (bytes_readsBack hk kb hkb) ?_
    exact ReadsExactly.bind (bytes_readsBack hv vb hvb) (ReadsExactly.pure _)
  | recordDeleted key =>
    simp only [Entry.encode, Option.bind_eq_bind, Option.bind_eq_some_iff, Option.pure_def,
      Option.some.injEq] at hbs
    obtain ⟨kb, hkb, rfl⟩ := hbs
    rw [show u8Width.put 1 ++ kb = u8Width.put 1 ++ (kb ++ []) by simp]
    refine ReadsExactly.bind (u8Width.get_put _ 1 bufferLimit) ?_
    exact ReadsExactly.bind (bytes_readsBack h kb hkb) (ReadsExactly.pure _)
  | checkpoint =>
    simp only [Entry.encode, Option.some.injEq] at hbs
    subst hbs
    rw [show u8Width.put 2 = u8Width.put 2 ++ [] by simp]
    exact ReadsExactly.bind (u8Width.get_put _ 2 bufferLimit) (ReadsExactly.pure _)

/-- `decode` keeps the value a decoder reads and drops the bytes after it. -/
theorem decode_of_apply {T : Type} [Decoder T] {bytes rest : List UInt8} {x : T}
    (h : (Decoder.decode : Decode T) bytes = .ok x rest) : decode bytes = .ok x := by
  simp only [decode, h]

/-- What reads back, `decode` gives back from its encoding alone. -/
theorem decode_of_readsBack {T : Type} [Encoder T] [Decoder T] {x : T} {bs : List UInt8} (hx : ReadsBack x)
    (hbs : Encoder.encode x = some bs) (hlen : bs.length < bufferLimit) : decode bs = .ok x := by
  have h := hx bs hbs [] (by rw [List.append_nil]; exact hlen)
  rw [List.append_nil] at h
  simp only [decode, h]

/-! ### Replay of a grown log -/

/-- Inserting pairs with distinct keys, in any order, adds exactly their lookups. -/
theorem lookup_foldl_insert {K V : Type} [DecidableEq K] {l : List (Sigma fun _ : K => V)} (hl : l.NodupKeys)
    (c : AList fun _ : K => V) (k : K) :
    (l.foldl (fun c e => c.insert e.1 e.2) c).lookup k = (l.dlookup k).or (c.lookup k) := by
  induction l generalizing c with
  | nil => simp
  | cons e l ih =>
    obtain ⟨a, b⟩ := e
    rw [List.foldl_cons, ih (List.nodupKeys_cons.mp hl).2]
    by_cases hk : k = a
    · subst hk
      have hnone : l.dlookup k = none := List.dlookup_eq_none.mpr (List.nodupKeys_cons.mp hl).1
      simp [hnone, AList.lookup_insert]
    · simp [List.dlookup_cons_ne l ⟨a, b⟩ hk, AList.lookup_insert_ne hk]

section Replay

variable {K V : Type} [DecidableEq K] [Decoder K] [Decoder V]

theorem replay_eq (log : RawLog) : (replay log : Except KvError (AList fun _ : K => V)) =
    ((EntriesLog.readFromEnd log).takeWhile isNotCheckpoint).reverse.foldlM applyEntry ∅ := rfl

/-- Entries appended after the last checkpoint are replayed after what the log replayed to. -/
theorem replay_append {log new : RawLog} (hnew : ∀ b ∈ new, isNotCheckpoint (decode b) = true) :
    (replay (log ++ new) : Except KvError (AList fun _ : K => V)) =
      replay log >>= fun c => (new.map decode).foldlM applyEntry c := by
  have hpos : ∀ e ∈ new.reverse.map decode, isNotCheckpoint e = true := by
    simpa using hnew
  rw [replay_eq, replay_eq]
  unfold EntriesLog.readFromEnd
  rw [List.reverse_append, List.map_append, List.takeWhile_append_of_pos hpos, List.reverse_append,
    List.foldlM_append, ← List.map_reverse, List.reverse_reverse]

/-- A checkpoint followed by entries replays those entries alone, from an empty cache. -/
theorem replay_append_checkpoint {log new : RawLog} {cp : List UInt8} (hcp : decode cp = .ok Entry.checkpoint)
    (hnew : ∀ b ∈ new, isNotCheckpoint (decode b) = true) :
    (replay (log ++ cp :: new) : Except KvError (AList fun _ : K => V)) =
      (new.map decode).foldlM applyEntry ∅ := by
  have hpos : ∀ e ∈ new.reverse.map decode, isNotCheckpoint e = true := by
    simpa using hnew
  have hstop : ¬ isNotCheckpoint (decode cp) = true := by
    simp [hcp, isNotCheckpoint]
  rw [replay_eq]
  unfold EntriesLog.readFromEnd
  rw [List.reverse_append, List.reverse_cons, List.map_append, List.map_append, List.append_assoc,
    List.takeWhile_append_of_pos hpos, List.map_singleton, List.singleton_append,
    List.takeWhile_cons_of_neg hstop, List.append_nil, ← List.map_reverse, List.reverse_reverse]

end Replay

/-! ### Operations keep the replay -/

/-- An encoding short enough for a `Vec<u8>` field of an entry. -/
def EncodesShort {α : Type} [Encoder α] (x : α) : Prop :=
  ∀ bs, Encoder.encode x = some bs → bs.length < 2 ^ 31

/-- A `map`'s result relates each element to its image. -/
theorem forall₂_of_mapM {α β : Type} {f : α → Option β} :
    ∀ {l : List α} {l' : List β}, l.mapM f = some l' → List.Forall₂ (fun a b => f a = some b) l l'
  | [], l', h => by
    simp only [List.mapM_nil, Option.pure_def, Option.some.injEq] at h
    subst h
    exact .nil
  | a :: l, l', h => by
    simp only [List.mapM_cons, Option.bind_eq_bind, Option.bind_eq_some_iff, Option.pure_def,
      Option.some.injEq] at h
    obtain ⟨b, hb, bs, hbs, rfl⟩ := h
    exact .cons hb (forall₂_of_mapM hbs)

theorem appendBatch_singleton (log : RawLog) (e : Entry) :
    EntriesLog.appendBatch log [e] = (Entry.encode e).map fun eb => log ++ [eb] := by
  cases h : Entry.encode e <;>
    simp [EntriesLog.appendBatch, List.mapM_cons, h, show Encoder.encode e = Entry.encode e from rfl]

/-- An entry's encoding is short enough to decode, with the `Vec<u8>` lengths it carries. -/
theorem Entry.decode_encode {e : Entry} {eb : List UInt8} (h : e.Fits) (heb : Entry.encode e = some eb) :
    Kv.decode eb = .ok e := by
  apply decode_of_readsBack (Entry.readsBack h) heb
  cases e with
  | recordUpdated key value =>
    obtain ⟨kb, hkb, hklen⟩ := encode_bytes key
    obtain ⟨vb, hvb, hvlen⟩ := encode_bytes value
    simp only [Entry.encode, hkb, hvb, Option.bind_eq_bind, Option.bind_some, Option.pure_def,
      Option.some.injEq] at heb
    subst heb
    simp only [List.length_append, FixedWidth.length_put, hklen, hvlen, bufferLimit, isizeMax]
    simp only [Entry.Fits] at h
    simp only [u8Width]
    omega
  | recordDeleted key =>
    obtain ⟨kb, hkb, hklen⟩ := encode_bytes key
    simp only [Entry.encode, hkb, Option.bind_eq_bind, Option.bind_some, Option.pure_def,
      Option.some.injEq] at heb
    subst heb
    simp only [List.length_append, FixedWidth.length_put, hklen, bufferLimit, isizeMax, u8Width]
    simp only [Entry.Fits] at h
    omega
  | checkpoint =>
    simp only [Entry.encode, Option.some.injEq] at heb
    subst heb
    simp [FixedWidth.length_put, bufferLimit, isizeMax, u8Width]

section Ops

variable {K V : Type} [DecidableEq K] [Encoder K] [Decoder K] [Encoder V] [Decoder V]

omit [Protocol.Decoder K] [Protocol.Decoder V] in
/-- What `put` does: it encodes the key and the value, appends their entry, and inserts the
pair. -/
theorem LogBasedKVStorage.put_eq_some_iff {s s' : LogBasedKVStorage K V} {key : K} {value : V} :
    s.put key value = some s' ↔ ∃ kb vb eb, Encoder.encode key = some kb ∧ Encoder.encode value = some vb ∧
      Entry.encode (.recordUpdated kb vb) = some eb ∧ s' = ⟨s.cache.insert key value, s.log ++ [eb]⟩ := by
  simp only [LogBasedKVStorage.put, appendBatch_singleton, Option.bind_eq_bind, Option.bind_eq_some_iff,
    Option.map_eq_some_iff, Option.pure_def, Option.some.injEq]
  constructor
  · rintro ⟨kb, hkb, vb, hvb, _, ⟨eb, heb, rfl⟩, rfl⟩
    exact ⟨kb, vb, eb, hkb, hvb, heb, rfl⟩
  · rintro ⟨kb, vb, eb, hkb, hvb, heb, rfl⟩
    exact ⟨kb, hkb, vb, hvb, _, ⟨eb, heb, rfl⟩, rfl⟩

/-- A value with a short encoding that reads back is what `decode` makes of its encoding. -/
theorem decode_encode_short {T : Type} [Encoder T] [Decoder T] {x : T} {bs : List UInt8} (hx : ReadsBack x)
    (hshort : EncodesShort x) (hbs : Encoder.encode x = some bs) : decode bs = .ok x := by
  apply decode_of_readsBack hx hbs
  have := hshort bs hbs
  unfold bufferLimit isizeMax
  omega

/-- The entry `put` writes replays as the insertion it made. -/
theorem applyEntry_updated (hK : RoundTrips K) (hV : RoundTrips V) {key : K} {value : V}
    {kb vb eb : List UInt8} (hks : EncodesShort key) (hvs : EncodesShort value) (hkb : Encoder.encode key = some kb)
    (hvb : Encoder.encode value = some vb) (heb : Entry.encode (.recordUpdated kb vb) = some eb)
    (c : AList fun _ : K => V) :
    isNotCheckpoint (decode eb) = true ∧ applyEntry c (decode eb) = .ok (c.insert key value) := by
  rw [Entry.decode_encode (e := .recordUpdated kb vb) ⟨hks kb hkb, hvs vb hvb⟩ heb]
  refine ⟨rfl, ?_⟩
  simp only [applyEntry, decode_encode_short (hK key) hks hkb, decode_encode_short (hV value) hvs hvb]
  rfl

omit [Encoder V] in
/-- The entry `delete` writes replays as the removal it made. -/
theorem applyEntry_deleted (hK : RoundTrips K) {key : K} {kb eb : List UInt8} (hks : EncodesShort key)
    (hkb : Encoder.encode key = some kb) (heb : Entry.encode (.recordDeleted kb) = some eb)
    (c : AList fun _ : K => V) :
    isNotCheckpoint (decode eb) = true ∧ applyEntry c (decode eb) = .ok (c.erase key) := by
  rw [Entry.decode_encode (e := .recordDeleted kb) (hks kb hkb) heb]
  refine ⟨rfl, ?_⟩
  simp only [applyEntry, decode_encode_short (hK key) hks hkb]
  rfl

/-- The snapshot `flush` writes replays, from any cache, as the insertion of every cached pair. -/
theorem foldlM_snapshot (hK : RoundTrips K) (hV : RoundTrips V) :
    ∀ {es : List (Sigma fun _ : K => V)} {us : List Entry} {ubs : RawLog},
      List.Forall₂ (fun e u => snapshotEntry e = some u) es us →
      List.Forall₂ (fun u ub => Entry.encode u = some ub) us ubs →
      (∀ e ∈ es, EncodesShort e.1 ∧ EncodesShort e.2) → ∀ c,
      (∀ ub ∈ ubs, isNotCheckpoint (decode ub) = true) ∧
        (ubs.map decode).foldlM applyEntry c = .ok (es.foldl (fun c e => c.insert e.1 e.2) c)
  | _, _, _, .nil, .nil, _, c => ⟨by simp, rfl⟩
  | e :: es, u :: us, ub :: ubs, .cons hu hus, .cons hub hubs, hshort, c => by
    have he := hshort e List.mem_cons_self
    simp only [snapshotEntry, Option.bind_eq_bind, Option.bind_eq_some_iff, Option.pure_def,
      Option.some.injEq] at hu
    obtain ⟨kb, hkb, vb, hvb, rfl⟩ := hu
    obtain ⟨hne, happly⟩ := applyEntry_updated hK hV he.1 he.2 hkb hvb hub c
    obtain ⟨hrest, hfold⟩ := foldlM_snapshot hK hV hus hubs (fun e' he' => hshort e' (List.mem_cons_of_mem e he'))
      (c.insert e.1 e.2)
    refine ⟨?_, ?_⟩
    · intro ub' hub'
      rcases List.mem_cons.mp hub' with rfl | hmem
      · exact hne
      · exact hrest ub' hmem
    · rw [List.map_cons, List.foldlM_cons, happly]
      exact hfold

/-- The log replays to a cache with the storage's lookups, and every cached key and value has a
short encoding. -/
structure LogBasedKVStorage.Replays (s : LogBasedKVStorage K V) : Prop where
  replay : ∃ c, replay s.log = .ok c ∧ ∀ k, c.lookup k = s.cache.lookup k
  short : ∀ e ∈ s.cache.entries, EncodesShort e.1 ∧ EncodesShort e.2

/-- The keys and values of an operation have short encodings. -/
def Op.Fits : Op K V → Prop
  | .put key value => EncodesShort key ∧ EncodesShort value
  | .delete key => EncodesShort key
  | .flush => True

variable (hK : RoundTrips K) (hV : RoundTrips V) {s s' : LogBasedKVStorage K V}

include hK hV in
theorem LogBasedKVStorage.Replays.put {key : K} {value : V} (hs : s.Replays) (hks : EncodesShort key)
    (hvs : EncodesShort value) (h : s.put key value = some s') : s'.Replays := by
  obtain ⟨kb, vb, eb, hkb, hvb, heb, rfl⟩ := LogBasedKVStorage.put_eq_some_iff.mp h
  obtain ⟨c, hc, hlookup⟩ := hs.replay
  obtain ⟨hne, happly⟩ := applyEntry_updated hK hV hks hvs hkb hvb heb c
  refine ⟨⟨c.insert key value, ?_, fun k => ?_⟩, fun e he => ?_⟩
  · rw [replay_append (by simpa using hne), hc]
    show ([eb].map decode).foldlM applyEntry c = _
    simp [happly]
  · by_cases hk : k = key
    · subst hk
      simp [AList.lookup_insert]
    · simp [AList.lookup_insert_ne hk, hlookup]
  · simp only [AList.entries_insert, List.mem_cons] at he
    rcases he with rfl | he
    · exact ⟨hks, hvs⟩
    · exact hs.short e ((List.kerase_sublist key s.cache.entries).subset he)

include hK in
theorem LogBasedKVStorage.Replays.delete {key : K} (hs : s.Replays) (hks : EncodesShort key)
    (h : s.delete key = some s') : s'.Replays := by
  simp only [LogBasedKVStorage.delete, appendBatch_singleton, Option.bind_eq_bind, Option.bind_eq_some_iff,
    Option.map_eq_some_iff, Option.pure_def, Option.some.injEq] at h
  obtain ⟨kb, hkb, _, ⟨eb, heb, rfl⟩, rfl⟩ := h
  obtain ⟨c, hc, hlookup⟩ := hs.replay
  obtain ⟨hne, happly⟩ := applyEntry_deleted (V := V) hK hks hkb heb c
  refine ⟨⟨c.erase key, ?_, fun k => ?_⟩, fun e he => hs.short e ((List.kerase_sublist key s.cache.entries).subset he)⟩
  · rw [replay_append (by simpa using hne), hc]
    show ([eb].map decode).foldlM applyEntry c = _
    simp [happly]
  · by_cases hk : k = key
    · subst hk
      simp [AList.lookup_erase]
    · simp [AList.lookup_erase_ne hk, hlookup]

include hK hV in
theorem LogBasedKVStorage.Replays.flush (hs : s.Replays) (h : s.flush = some s') : s'.Replays := by
  simp only [LogBasedKVStorage.flush, EntriesLog.appendBatch, Option.bind_eq_bind, Option.bind_eq_some_iff,
    Option.pure_def, Option.some.injEq] at h
  obtain ⟨updates, hupdates, _, ⟨encoded, hencoded, rfl⟩, rfl⟩ := h
  -- the checkpoint comes first, then the snapshot
  simp only [List.mapM_cons, Option.bind_eq_bind, Option.bind_eq_some_iff, Option.pure_def,
    Option.some.injEq] at hencoded
  obtain ⟨cpb, hcpb, ubs, hubs, rfl⟩ := hencoded
  have hcp : decode cpb = .ok Entry.checkpoint := Entry.decode_encode trivial hcpb
  obtain ⟨hne, hfold⟩ := foldlM_snapshot hK hV (forall₂_of_mapM hupdates) (forall₂_of_mapM hubs) hs.short ∅
  refine ⟨⟨_, by rw [replay_append_checkpoint hcp hne, hfold], fun k => ?_⟩, hs.short⟩
  rw [lookup_foldl_insert s.cache.nodupKeys]
  simp [AList.lookup]

include hK hV in
/-- **A run of operations keeps the replay.** -/
theorem LogBasedKVStorage.Replays.run :
    ∀ {ops : List (Op K V)} {s s' : LogBasedKVStorage K V}, s.Replays → (∀ op ∈ ops, op.Fits) →
      s.run ops = some s' → s'.Replays
  | [], _, _, hs, _, h => by
    simp only [LogBasedKVStorage.run, List.foldlM_nil, Option.pure_def, Option.some.injEq] at h
    exact h ▸ hs
  | op :: ops, s, s', hs, hops, h => by
    simp only [LogBasedKVStorage.run, List.foldlM_cons, Option.bind_eq_bind, Option.bind_eq_some_iff] at h
    obtain ⟨s1, hstep, hrest⟩ := h
    have hfits := hops op List.mem_cons_self
    have hs1 : s1.Replays := by
      cases op with
      | put key value => exact hs.put hK hV hfits.1 hfits.2 hstep
      | delete key => exact hs.delete hK hfits hstep
      | flush => exact hs.flush hK hV hstep
    exact hs1.run (fun op' hop' => hops op' (List.mem_cons_of_mem op hop')) hrest

end Ops

section Run

variable {K V : Type} [DecidableEq K] [Encoder K] [Decoder K] [Encoder V] [Decoder V]

/-- **Replay reconstructs the store**: after a storage synced from a log runs operations, a
new storage over the log they leave syncs to the same entries. -/
theorem LogBasedKVStorage.syncFromLog_run (hK : RoundTrips K) (hV : RoundTrips V) {log : RawLog}
    {ops : List (Op K V)} {s₀ s : LogBasedKVStorage K V}
    (hsync : (LogBasedKVStorage.new log : LogBasedKVStorage K V).syncFromLog = .ok s₀)
    (hshort : ∀ e ∈ s₀.cache.entries, EncodesShort e.1 ∧ EncodesShort e.2)
    (hops : ∀ op ∈ ops, op.Fits) (hrun : s₀.run ops = some s) :
    ∃ s', (LogBasedKVStorage.new s.log : LogBasedKVStorage K V).syncFromLog = .ok s' ∧
      s'.entries.Perm s.entries := by
  simp only [LogBasedKVStorage.syncFromLog, bind, Except.bind] at hsync
  split at hsync
  · cases hsync
  rename_i c₀ hc₀
  cases hsync
  have hs₀ : LogBasedKVStorage.Replays ⟨c₀, log⟩ := ⟨⟨c₀, hc₀, fun _ => rfl⟩, hshort⟩
  obtain ⟨c, hc, hlookup⟩ := (hs₀.run hK hV hops hrun).replay
  refine ⟨⟨c, s.log⟩, by simp [LogBasedKVStorage.syncFromLog, LogBasedKVStorage.new, hc], ?_⟩
  -- two maps with the same lookups hold the same pairs
  have hperm : c.entries.Perm s.cache.entries := by
    refine List.lookup_ext c.nodupKeys s.cache.nodupKeys fun k v => ?_
    show v ∈ c.lookup k ↔ v ∈ s.cache.lookup k
    rw [hlookup]
  exact hperm.map _

end Run

/-- Every byte has a one-byte encoding. -/
theorem encodesShort_u8 (x : UInt8) : EncodesShort x := by
  intro bs hbs
  cases hbs
  simp [FixedWidth.length_put, u8Width]

/-- A run with an update, a flush, a removal and another update. -/
def sampleOps : List (Op UInt8 UInt8) := [.put 1 2, .flush, .delete 1, .put 3 4]

theorem sampleOps_fit : ∀ op ∈ sampleOps, op.Fits := by
  intro op hop
  simp only [sampleOps, List.mem_cons, List.not_mem_nil, or_false] at hop
  rcases hop with rfl | rfl | rfl | rfl
  · exact ⟨encodesShort_u8 1, encodesShort_u8 2⟩
  · trivial
  · exact encodesShort_u8 1
  · exact ⟨encodesShort_u8 3, encodesShort_u8 4⟩

/-! ### An encoding of `2 ^ 31` bytes

`Vec<u8>::encode` writes the length as `u32` and `Vec<u8>::decode` reads it back as `i32`: a
key of `2 ^ 31` bytes comes back as an empty key, and the value is read from the key's bytes.
-/

/-- The number of bytes that no longer fits an `i32`. -/
def wideLength : Nat := 2 ^ 31

/-- A key type with a one-byte encoding and one of `2 ^ 31` zeros, both read back. Decoding
into the default value reads nothing from an empty input, as a decoder that checks
`has_remaining` first does. -/
inductive Wide
  | short
  | long
deriving DecidableEq, Repr

def Wide.bytes : Wide → List UInt8
  | .short => [1]
  | .long => List.replicate wideLength 0

instance : Encoder Wide := ⟨fun w => some w.bytes.length, fun w => some w.bytes⟩

def Wide.decode : Decode Wide := fun s =>
  match s with
  | [] => .ok .short []
  | b :: rest =>
    if b = 1 then .ok .short rest
    else if b = 0 ∧ wideLength - 1 ≤ rest.length then .ok .long (rest.drop (wideLength - 1))
    else .error (.io .invalidData "wide") rest

instance : Decoder Wide := ⟨Wide.decode⟩

theorem wideLength_eq : wideLength = (wideLength - 1) + 1 := by
  simp [wideLength]

theorem Wide.roundTrips : RoundTrips Wide := by
  intro x bs hbs rest _
  cases hbs
  cases x with
  | short => rfl
  | long =>
    show Wide.decode (List.replicate wideLength 0 ++ rest) = .ok .long rest
    rw [wideLength_eq, List.replicate_succ, List.cons_append]
    have hlen : wideLength - 1 ≤ (List.replicate (wideLength - 1) (0 : UInt8) ++ rest).length := by
      simp
    simp only [Wide.decode, if_neg (by decide : ¬ (0 : UInt8) = 1), true_and, if_pos hlen]
    rw [List.drop_left' (List.length_replicate ..)]

/-- The bytes of a `u8` are the byte itself. -/
theorem u8Width_put (x : UInt8) : u8Width.put x = [x] := by
  simp [FixedWidth.put, u8Width, BigEndian.bytes]

/-- `Vec<u8>::encode`: the length as `u32`, then the bytes themselves. -/
theorem encode_bytes_eq (bs : List UInt8) :
    Encoder.encode bs = some (u32Width.put (UInt32.ofNat bs.length) ++ bs) := by
  have hall : encodeAll bs = some bs := by
    induction bs with
    | nil => rfl
    | cons b bs ih => simp [encodeAll, ih, u8Width_put, Encoder.encode]
  simp [Encoder.encode, vecEncode, hall]

/-- A length below one reads as an empty vector and leaves the bytes after it. -/
theorem decode_length_lt_one {M : Type} [Decoder M] {s rest : List UInt8} {len : Int32}
    (hlen : (Decoder.decode : Decode Int32) s = .ok len rest) (h : len < 1) :
    (Decoder.decode : Decode (List M)) s = .ok [] rest := by
  have hinto : (vecDecodeInto s : List M × _) = ([], .ok () rest) := by
    rw [vecDecodeInto, hlen]
    exact if_pos h
  show vecDecode s = _
  rw [vecDecode, hinto]

/-- A length of `2 ^ 31` written as `u32` reads back as an empty vector. -/
theorem decode_wideLength (rest : List UInt8) :
    (Decoder.decode : Decode (List UInt8)) (u32Width.put (UInt32.ofNat wideLength) ++ rest) = .ok [] rest := by
  rw [show u32Width.put (UInt32.ofNat wideLength) = i32Width.put (-2147483648) by decide]
  exact decode_length_lt_one (FixedWidth.get_put_apply i32Width _ _ _) (by decide)

/-- Zeros read as a `Vec<u8>` give an empty vector. -/
theorem decode_zeros (rest : List UInt8) :
    (Decoder.decode : Decode (List UInt8)) (List.replicate wideLength 0 ++ rest) =
      .ok [] (List.replicate (wideLength - 4) 0 ++ rest) := by
  have hfour : wideLength = 4 + (wideLength - 4) := by
    unfold wideLength
    omega
  have hsplit : List.replicate wideLength (0 : UInt8) = i32Width.put 0 ++ List.replicate (wideLength - 4) 0 := by
    rw [hfour, List.replicate_add, Nat.add_sub_cancel_left,
      show List.replicate 4 (0 : UInt8) = i32Width.put 0 by decide]
  rw [hsplit, List.append_assoc]
  exact decode_length_lt_one (FixedWidth.get_put_apply i32Width _ _ _) (by decide)

/-- An update entry reads its tag, then its key and value fields. -/
theorem Entry.decode_updated {s₁ s₂ s₃ : List UInt8} {key value : List UInt8}
    (hkey : (Decoder.decode : Decode (List UInt8)) s₁ = .ok key s₂)
    (hvalue : (Decoder.decode : Decode (List UInt8)) s₂ = .ok value s₃) :
    Entry.decode (u8Width.put 0 ++ s₁) = .ok (.recordUpdated key value) s₃ := by
  have htag : (Decoder.decode : Decode UInt8) (u8Width.put 0 ++ s₁) = .ok 0 s₁ :=
    FixedWidth.get_put_apply u8Width _ _ _
  rw [Entry.decode, bind_ok htag, if_pos rfl, bind_ok hkey, bind_ok hvalue]
  rfl

/-- The entry `put` writes for the long key and the short value. -/
def wideEntry : List UInt8 :=
  u8Width.put 0 ++ (u32Width.put (UInt32.ofNat wideLength) ++ List.replicate wideLength 0) ++ (u32Width.put 1 ++ [1])

/-- The entry of the long key decodes as an update of the empty key to the empty value. -/
theorem decode_wideEntry : decode wideEntry = .ok (Entry.recordUpdated [] []) := by
  have hentry : Entry.decode wideEntry = .ok (.recordUpdated [] []) (List.replicate (wideLength - 4) 0 ++ (u32Width.put 1 ++ [1])) := by
    rw [wideEntry, List.append_assoc, List.append_assoc]
    exact Entry.decode_updated (decode_wideLength _) (decode_zeros _)
  exact decode_of_apply hentry

/-- `put` of the long key and the short value writes `wideEntry`. -/
theorem put_wide :
    (LogBasedKVStorage.new [] : LogBasedKVStorage Wide Wide).put .long .short =
      some ⟨(∅ : AList fun _ : Wide => Wide).insert .long .short, [wideEntry]⟩ := by
  have hkey : Encoder.encode (List.replicate wideLength (0 : UInt8)) =
      some (u32Width.put (UInt32.ofNat wideLength) ++ List.replicate wideLength 0) := by
    rw [encode_bytes_eq, List.length_replicate]
  have hvalue : Encoder.encode ([1] : List UInt8) = some (u32Width.put 1 ++ [1]) := by
    rw [encode_bytes_eq]
    rfl
  have hentry : Entry.encode (.recordUpdated (List.replicate wideLength 0) [1]) = some wideEntry := by
    rw [Entry.encode, hkey, hvalue]
    rfl
  exact LogBasedKVStorage.put_eq_some_iff.mpr ⟨_, _, _, rfl, rfl, hentry, rfl⟩

/-- A new storage over `wideEntry` syncs to the short key. -/
theorem syncFromLog_wide :
    (LogBasedKVStorage.new [wideEntry] : LogBasedKVStorage Wide Wide).syncFromLog =
      .ok ⟨(∅ : AList fun _ : Wide => Wide).insert .short .short, [wideEntry]⟩ := by
  have hread : EntriesLog.readFromEnd [wideEntry] = [.ok (Entry.recordUpdated [] [])] := by
    rw [EntriesLog.readFromEnd, List.reverse_singleton, List.map_singleton, decode_wideEntry]
  have hreplay : (replay [wideEntry] : Except KvError (AList fun _ : Wide => Wide)) =
      .ok ((∅ : AList fun _ : Wide => Wide).insert .short .short) := by
    rw [replay_eq, hread]
    rfl
  show (replay [wideEntry] >>= fun cache => pure _) = _
  rw [hreplay]
  rfl

end Fluvio.Kv
