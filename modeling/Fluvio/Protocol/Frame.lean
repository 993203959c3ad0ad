import Fluvio.Protocol.Core
import Fluvio.Lib.Framed
import Mathlib.Data.List.Forall2

/-!
`FluvioCodec` (`fluvio-protocol/src/codec/mod.rs`): the framing of the wire protocol. A
frame is an `i32` length `n` and `n` bytes of message. `decode` splits one frame off the
front of the socket buffer, or finds none yet; a framed stream calls it after each chunk
of bytes until it finds none (`Framed.FrameDecoder.feed`).

`decode` only looks at the front of the buffer, so bytes arriving later never change a
frame it found or a panic it hit (`FluvioCodec.prefixStable`), and the frames of a stream
do not depend on its chunking. It computes `(packet_len + 4) as usize` from the untrusted
length: a length above `i32::MAX - 4` overflows the addition, and a length from `-4` to
`-1` gives a frame shorter than its own prefix, which `split_off(4)` rejects with a panic.
A length below `-4` wraps to a size no buffer reaches, and the decoder waits forever.
Below those, the decoder yields exactly the well-formed frames at the front of the
stream (`FluvioCodec.drain_spec`).
-/

namespace Fluvio.Protocol

open BigEndian Cursor Framed

/-- The four bytes of a length prefix read as a big-endian `i32`. -/
def frameLength (bytes : List UInt8) : Int32 := i32Width.ofBits (value (bytes.take 4))

/-- `i32` decoding reads the prefix of a buffer of four bytes or more. -/
theorem decode_int32_of_length {bytes : List UInt8} (h : 4 ≤ bytes.length) :
    (Decoder.decode : Decode Int32) bytes = .ok (frameLength bytes) (bytes.drop 4) := by
  have hw : ¬ bytes.length < i32Width.width := Nat.not_lt.mpr h
  show i32Width.get "can't read i32" bytes = _
  rw [FixedWidth.get, bind_ok (remaining_apply bytes)]
  split
  · contradiction
  · rw [bind_ok (advance_apply _ bytes)]
    rfl

theorem frameLength_append {bytes : List UInt8} (h : 4 ≤ bytes.length) (c : List UInt8) :
    frameLength (bytes ++ c) = frameLength bytes := by
  rw [frameLength, List.take_append_of_le_length h]
  rfl

/-- `FluvioCodec::decode`: with four bytes or more, the length prefix `packet_len`, then
`split_to((packet_len + 4) as usize)` and `split_off(4)` once the frame is all there. -/
def FluvioCodec.decode (bytes : List UInt8) : Except DecodeError (Option (List UInt8) × List UInt8) :=
  let len := bytes.length
  if len = 0 then .ok (none, bytes)
  else if 4 ≤ len then
    -- `packet_len.decode(&mut src, 0)?` on a cursor over the buffer
    match (Decoder.decode : Decode Int32) bytes with
    | .error e _ => .error e
    | .ok packetLen _ =>
      -- `packet_len + 4` with overflow checks
      if 2 ^ 31 ≤ packetLen.toInt + 4 then .error (.panic "attempt to add with overflow")
      else if Int32.asUsize (packetLen + 4) ≤ len then
        if Int32.asUsize (packetLen + 4) < 4 then .error (.panic "split_off out of bounds")
        else
          .ok (some ((bytes.take (Int32.asUsize (packetLen + 4))).drop 4),
            bytes.drop (Int32.asUsize (packetLen + 4)))
      else .ok (none, bytes)
  else .ok (none, bytes)

/-- A buffer of fewer than four bytes holds no frame yet. -/
theorem FluvioCodec.decode_short {bytes : List UInt8} (h : bytes.length < 4) :
    FluvioCodec.decode bytes = .ok (none, bytes) := by
  unfold FluvioCodec.decode
  dsimp only
  split
  · rfl
  · rw [if_neg (Nat.not_le.mpr h)]

/-- With four bytes or more, `decode` is decided by the length prefix. -/
theorem FluvioCodec.decode_long {bytes : List UInt8} (h : 4 ≤ bytes.length) :
    FluvioCodec.decode bytes =
      if 2 ^ 31 ≤ (frameLength bytes).toInt + 4 then .error (.panic "attempt to add with overflow")
      else if Int32.asUsize (frameLength bytes + 4) ≤ bytes.length then
        if Int32.asUsize (frameLength bytes + 4) < 4 then .error (.panic "split_off out of bounds")
        else
          .ok (some ((bytes.take (Int32.asUsize (frameLength bytes + 4))).drop 4),
            bytes.drop (Int32.asUsize (frameLength bytes + 4)))
      else .ok (none, bytes) := by
  unfold FluvioCodec.decode
  dsimp only
  rw [if_neg (by omega), if_pos h, decode_int32_of_length h]

theorem FluvioCodec.decode_shrinks {bytes bytes' frame : List UInt8}
    (h : FluvioCodec.decode bytes = .ok (some frame, bytes')) : bytes'.length < bytes.length := by
  by_cases hlen : 4 ≤ bytes.length
  · rw [FluvioCodec.decode_long hlen] at h
    split_ifs at h with hover hfits hsmall
    · -- the frame is split off: at least its four bytes of prefix go
      obtain ⟨-, rfl⟩ := Prod.mk.inj (Except.ok.inj h)
      rw [List.length_drop]
      omega
    · cases h
  · rw [FluvioCodec.decode_short (by omega)] at h
    cases h

/-- `FluvioCodec` as the decoder a framed stream runs. -/
def fluvioCodec : FrameDecoder UInt8 DecodeError (List UInt8) :=
  ⟨FluvioCodec.decode, FluvioCodec.decode_shrinks⟩

/-- An answer other than waiting comes from the length prefix: the bytes hold at least four,
and so does any extension of them. -/
theorem FluvioCodec.four_le_of_decode {s c : List UInt8} {r : Except DecodeError (Option (List UInt8) × List UInt8)}
    (h : FluvioCodec.decode s = r) (hr : r ≠ .ok (none, s)) : 4 ≤ s.length ∧ 4 ≤ (s ++ c).length := by
  have hlen : 4 ≤ s.length := by
    by_contra hshort
    rw [FluvioCodec.decode_short (by omega)] at h
    exact hr h.symm
  rw [List.length_append]
  omega

/-- `decode` reads nothing past the frame at the front of the buffer. -/
theorem FluvioCodec.prefixStable : fluvioCodec.PrefixStable where
  none_same := by
    intro s s' h
    by_cases hlen : 4 ≤ s.length
    · change FluvioCodec.decode s = _ at h
      rw [FluvioCodec.decode_long hlen] at h
      split_ifs at h
      · cases h
      · exact (Prod.mk.inj (Except.ok.inj h)).2.symm
    · change FluvioCodec.decode s = _ at h
      rw [FluvioCodec.decode_short (by omega)] at h
      exact (Prod.mk.inj (Except.ok.inj h)).2.symm
  some_append := by
    intro s f s' c h
    change FluvioCodec.decode s = _ at h
    change FluvioCodec.decode (s ++ c) = _
    obtain ⟨hlen, hlen'⟩ := FluvioCodec.four_le_of_decode (c := c) h (by simp)
    rw [FluvioCodec.decode_long hlen] at h
    rw [FluvioCodec.decode_long hlen', frameLength_append hlen]
    split_ifs at h with hover hfits hsmall
    · simp only [Except.ok.injEq, Prod.mk.injEq, Option.some.injEq] at h
      obtain ⟨rfl, rfl⟩ := h
      -- the whole frame is in `s`, so the extra bytes stay behind it
      have hfits' : Int32.asUsize (frameLength s + 4) ≤ (s ++ c).length := by
        rw [List.length_append]
        omega
      rw [if_neg hover, if_pos hfits', if_neg hsmall, List.take_append_of_le_length hfits,
        List.drop_append_of_le_length hfits]
    · cases h
  error_append := by
    intro s e c h
    change FluvioCodec.decode s = _ at h
    change FluvioCodec.decode (s ++ c) = _
    obtain ⟨hlen, hlen'⟩ := FluvioCodec.four_le_of_decode (c := c) h (by simp)
    rw [FluvioCodec.decode_long hlen] at h
    rw [FluvioCodec.decode_long hlen', frameLength_append hlen]
    split_ifs at h with hover hfits hsmall
    · rw [if_pos hover]
      exact h
    · -- a frame shorter than its prefix: the panic does not wait for more bytes
      have hfits' : Int32.asUsize (frameLength s + 4) ≤ (s ++ c).length := by
        rw [List.length_append]
        omega
      rw [if_neg hover, if_pos hfits', if_pos hsmall]
      exact h

/-- **The frames of a stream do not depend on its chunking**: the chunks fed one after
the other give what the decoder gives on all their bytes at once. -/
theorem FluvioCodec.feed_eq_drain (cs : List (List UInt8)) :
    fluvioCodec.feed [] cs = fluvioCodec.drain cs.flatten :=
  FrameDecoder.feed_eq_drain FluvioCodec.prefixStable cs (@FluvioCodec.decode_short [] (by decide))

/-! ### What the decoder yields -/

/-- The well-formed frames at the front of `bytes`, and the bytes after them. A frame is a
length prefix `n` with `0 ≤ n ≤ i32::MAX - 4`, then `n` bytes. -/
def leadingFrames (bytes : List UInt8) : List (List UInt8) × List UInt8 :=
  if h : 4 ≤ bytes.length ∧ 0 ≤ (frameLength bytes).toInt ∧ (frameLength bytes).toInt + 4 < 2 ^ 31 ∧
      (frameLength bytes).toInt.toNat + 4 ≤ bytes.length then
    let r := leadingFrames (bytes.drop ((frameLength bytes).toInt.toNat + 4))
    ((bytes.drop 4).take (frameLength bytes).toInt.toNat :: r.1, r.2)
  else ([], bytes)
termination_by bytes.length
decreasing_by
  rw [List.length_drop]
  omega

/-- Whether every length prefix the decoder meets in `bytes` is one it takes without a
panic: none from `-4` to `-1` and none above `i32::MAX - 4`. -/
def headersSafe (bytes : List UInt8) : Bool :=
  if h : 4 ≤ bytes.length then
    if 2 ^ 31 ≤ (frameLength bytes).toInt + 4 ∨ (-4 ≤ (frameLength bytes).toInt ∧ (frameLength bytes).toInt < 0) then
      false
    else if h' : 0 ≤ (frameLength bytes).toInt ∧ (frameLength bytes).toInt.toNat + 4 ≤ bytes.length then
      headersSafe (bytes.drop ((frameLength bytes).toInt.toNat + 4))
    else true
  else true
termination_by bytes.length
decreasing_by
  rw [List.length_drop]
  omega

/-- `packet_len + 4` does not wrap when it does not overflow. -/
theorem Int32.toInt_add_four {n : Int32} (h : n.toInt + 4 < 2 ^ 31) : (n + 4).toInt = n.toInt + 4 := by
  have hlo := Int32.le_toInt n
  rw [Int32.toInt_add, Int.bmod_def]
  simp only [show (4 : Int32).toInt = 4 from rfl]
  split <;> omega

/-- The frame size `(packet_len + 4) as usize` of a length that is not negative. -/
theorem frameSize_of_nonneg {n : Int32} (h0 : 0 ≤ n.toInt) (h : n.toInt + 4 < 2 ^ 31) :
    Int32.asUsize (n + 4) = n.toInt.toNat + 4 := by
  rw [Int32.asUsize_of_nonneg (by rw [Int32.toInt_add_four h]; omega), Int32.toInt_add_four h]
  omega

/-- A length from `-4` to `-1` gives a frame size below four. -/
theorem frameSize_lt_four {n : Int32} (hlo : -4 ≤ n.toInt) (hneg : n.toInt < 0) : Int32.asUsize (n + 4) < 4 := by
  have h : n.toInt + 4 < 2 ^ 31 := by omega
  rw [Int32.asUsize_of_nonneg (by rw [Int32.toInt_add_four h]; omega), Int32.toInt_add_four h]
  omega

/-- A length below `-4` wraps to a frame size beyond every buffer. -/
theorem frameSize_of_lt {n : Int32} (hneg : n.toInt < -4) : bufferLimit ≤ Int32.asUsize (n + 4) := by
  have hlo := Int32.le_toInt n
  have h : n.toInt + 4 < 2 ^ 31 := by omega
  rw [Int32.asUsize_of_neg (by rw [Int32.toInt_add_four h]; omega), Int32.toInt_add_four h]
  unfold bufferLimit isizeMax
  omega

section Cases

variable {bytes : List UInt8} (hlen : 4 ≤ bytes.length)
include hlen

/-- A whole well-formed frame at the front is split off. -/
theorem FluvioCodec.decode_frame (h0 : 0 ≤ (frameLength bytes).toInt)
    (h : (frameLength bytes).toInt + 4 < 2 ^ 31) (hfits : (frameLength bytes).toInt.toNat + 4 ≤ bytes.length) :
    FluvioCodec.decode bytes = .ok (some ((bytes.drop 4).take (frameLength bytes).toInt.toNat),
      bytes.drop ((frameLength bytes).toInt.toNat + 4)) := by
  have hsize := frameSize_of_nonneg h0 h
  rw [FluvioCodec.decode_long hlen, if_neg (by omega), hsize, if_pos hfits, if_neg (by omega), List.drop_take]
  simp only [Nat.add_sub_cancel]

/-- A frame of a well-formed length not yet all there is waited for. -/
theorem FluvioCodec.decode_partial (h0 : 0 ≤ (frameLength bytes).toInt)
    (h : (frameLength bytes).toInt + 4 < 2 ^ 31) (hshort : bytes.length < (frameLength bytes).toInt.toNat + 4) :
    FluvioCodec.decode bytes = .ok (none, bytes) := by
  rw [FluvioCodec.decode_long hlen, if_neg (by omega), frameSize_of_nonneg h0 h, if_neg (by omega)]

/-- A length below `-4` is waited on forever. -/
theorem FluvioCodec.decode_wrapped (hneg : (frameLength bytes).toInt < -4) (hbound : bytes.length < bufferLimit) :
    FluvioCodec.decode bytes = .ok (none, bytes) := by
  have hsize := frameSize_of_lt hneg
  rw [FluvioCodec.decode_long hlen, if_neg (by omega), if_neg (by omega)]

/-- A length above `i32::MAX - 4` or from `-4` to `-1` panics. -/
theorem FluvioCodec.decode_panics (hbad : 2 ^ 31 ≤ (frameLength bytes).toInt + 4 ∨
      (-4 ≤ (frameLength bytes).toInt ∧ (frameLength bytes).toInt < 0)) :
    ∃ msg, FluvioCodec.decode bytes = .error (.panic msg) := by
  rw [FluvioCodec.decode_long hlen]
  rcases hbad with hover | ⟨hlo, hneg⟩
  · exact ⟨_, if_pos hover⟩
  · have hsize := frameSize_lt_four hlo hneg
    rw [if_neg (by omega), if_pos (by omega), if_pos hsize]
    exact ⟨_, rfl⟩

end Cases

/-- **What the decoder loop yields on a buffer**: the well-formed frames at its front; then
the bytes after them, unless it meets a length prefix it cannot take, where it panics. -/
theorem FluvioCodec.drain_spec (bytes : List UInt8) (hbound : bytes.length < bufferLimit) :
    (fluvioCodec.drain bytes).1 = (leadingFrames bytes).1 ∧
      (headersSafe bytes = true → (fluvioCodec.drain bytes).2 = .ok (leadingFrames bytes).2) ∧
      (headersSafe bytes = false → ∃ msg, (fluvioCodec.drain bytes).2 = .error (.panic msg)) := by
  induction bytes using WellFounded.induction (measure List.length).wf with
  | _ bytes ih =>
    by_cases hlen : 4 ≤ bytes.length
    swap
    · -- fewer than four bytes: no frame yet
      have hnone := FluvioCodec.decode_short (Nat.lt_of_not_le hlen)
      rw [fluvioCodec.drain_none hnone, leadingFrames, dif_neg (by omega), headersSafe, dif_neg hlen]
      exact ⟨rfl, fun _ => rfl, fun h => absurd h (by decide)⟩
    by_cases hbad : 2 ^ 31 ≤ (frameLength bytes).toInt + 4 ∨
        (-4 ≤ (frameLength bytes).toInt ∧ (frameLength bytes).toInt < 0)
    · -- a prefix the decoder cannot take
      obtain ⟨msg, hpanic⟩ := FluvioCodec.decode_panics hlen hbad
      have hsafe : headersSafe bytes = false := by
        rw [headersSafe, dif_pos hlen, if_pos hbad]
      rw [fluvioCodec.drain_error hpanic, leadingFrames, dif_neg (by omega), hsafe]
      exact ⟨rfl, fun h => absurd h (by decide), fun _ => ⟨msg, rfl⟩⟩
    by_cases hframe : 0 ≤ (frameLength bytes).toInt ∧ (frameLength bytes).toInt.toNat + 4 ≤ bytes.length
    · -- a whole frame: split it off and go on after it
      obtain ⟨h0, hfits⟩ := hframe
      have hok : (frameLength bytes).toInt + 4 < 2 ^ 31 := by omega
      have hdrop : (bytes.drop ((frameLength bytes).toInt.toNat + 4)).length < bytes.length := by
        rw [List.length_drop]
        omega
      obtain ⟨hframes, hsafe, hunsafe⟩ := ih _ hdrop (by omega)
      have hsafeEq : headersSafe bytes = headersSafe (bytes.drop ((frameLength bytes).toInt.toNat + 4)) := by
        rw [headersSafe, dif_pos hlen, if_neg hbad, dif_pos ⟨h0, hfits⟩]
      rw [fluvioCodec.drain_some (FluvioCodec.decode_frame hlen h0 hok hfits), leadingFrames,
        dif_pos ⟨hlen, h0, hok, hfits⟩, hsafeEq]
      exact ⟨by rw [hframes], hsafe, hunsafe⟩
    · -- no whole frame: the decoder waits for more bytes
      have hnone : FluvioCodec.decode bytes = .ok (none, bytes) := by
        by_cases h0 : 0 ≤ (frameLength bytes).toInt
        · exact FluvioCodec.decode_partial hlen h0 (by omega) (by omega)
        · exact FluvioCodec.decode_wrapped hlen (by omega) hbound
      have hsafe : headersSafe bytes = true := by
        rw [headersSafe, dif_pos hlen, if_neg hbad, dif_neg hframe]
      rw [fluvioCodec.drain_none hnone, leadingFrames, dif_neg (by omega), hsafe]
      exact ⟨rfl, fun _ => rfl, fun h => absurd h (by decide)⟩

/-! ### The encoder -/

/-- `Encoder<FluvioCodecData<T>>::encode`: `write_size` as an `i32` prefix, the
`buf.reserve(4 + size as usize)` of a negative size panicking, then `as_bytes`. -/
def FluvioCodec.encode {T : Type} [Encoder T] (src : T) : Option (Except DecodeError (List UInt8)) := do
  let size := Int32.ofNat (← writeSize src)
  if -4 ≤ size.toInt ∧ size.toInt < 0 then pure (.error (.panic "attempt to add with overflow"))
  else if size.toInt < 0 then pure (.error (.panic "capacity overflow"))
  else pure (.ok (i32Width.put size ++ (← Encoder.encode src)))

/-- A frame: the length of a payload as `i32`, then the payload. -/
def frame (payload : List UInt8) : List UInt8 := i32Width.put (Int32.ofNat payload.length) ++ payload

/-- A value whose `write_size` is the length of its encoding is framed around that encoding. -/
theorem FluvioCodec.encode_eq {T : Type} [Encoder T] {x : T} {payload : List UInt8} (hsize : SizeAgreesAt x)
    (henc : Encoder.encode x = some payload) (hlen : payload.length < 2 ^ 31) :
    FluvioCodec.encode x = some (.ok (frame payload)) := by
  have hws : writeSize x = some payload.length := by rw [hsize, henc]; rfl
  have hint : (Int32.ofNat payload.length).toInt = payload.length := Int32.toInt_ofNat_of_lt hlen
  have hnonneg : ¬ (Int32.ofNat payload.length).toInt < 0 := by omega
  simp only [FluvioCodec.encode, hws, henc, Option.bind_eq_bind, Option.bind_some, hnonneg, and_false,
    if_false, frame]
  rfl

theorem frameLength_frame (payload rest : List UInt8) :
    frameLength (frame payload ++ rest) = Int32.ofNat payload.length := by
  rw [frameLength, frame, List.append_assoc, ← i32Width_width, ← i32Width.length_put (Int32.ofNat payload.length),
    List.take_left, FixedWidth.put, value_bytes_of_lt (i32Width.toBits_lt _)]
  exact i32Width.ofBits_toBits _

/-- A frame in front of any bytes is a leading frame, with no prefix the decoder cannot take. -/
theorem leadingFrames_frame {payload : List UInt8} (hlen : payload.length + 4 < 2 ^ 31) (rest : List UInt8) :
    leadingFrames (frame payload ++ rest) = (payload :: (leadingFrames rest).1, (leadingFrames rest).2) ∧
      headersSafe (frame payload ++ rest) = headersSafe rest := by
  have hint : (frameLength (frame payload ++ rest)).toInt = payload.length := by
    rw [frameLength_frame]
    exact Int32.toInt_ofNat_of_lt (by omega)
  have hlength : (frame payload ++ rest).length = 4 + payload.length + rest.length := by
    simp only [frame, List.length_append, FixedWidth.length_put, i32Width_width]
  have hheader : 4 ≤ (frame payload ++ rest).length := by omega
  have hfits : (frameLength (frame payload ++ rest)).toInt.toNat + 4 ≤ (frame payload ++ rest).length := by
    rw [hint]
    omega
  -- the payload is what follows the prefix, and the rest what follows the payload
  have hpayload : ((frame payload ++ rest).drop 4).take payload.length = payload := by
    rw [frame, List.append_assoc, ← i32Width_width, ← i32Width.length_put (Int32.ofNat payload.length),
      List.drop_left, List.take_left]
  have hrest : (frame payload ++ rest).drop (payload.length + 4) = rest := by
    rw [frame, List.append_assoc, show payload.length + 4 = (i32Width.put (Int32.ofNat payload.length) ++ payload).length
      by rw [List.length_append, FixedWidth.length_put, i32Width_width, Nat.add_comm], ← List.append_assoc,
      List.drop_left]
  constructor
  · rw [leadingFrames, dif_pos ⟨hheader, by omega, by omega, hfits⟩]
    simp only [hint, Int.toNat_natCast, hpayload, hrest]
  · rw [headersSafe, dif_pos hheader, if_neg (by omega), dif_pos ⟨by omega, hfits⟩]
    simp only [hint, Int.toNat_natCast, hrest]

/-- The frames of payloads one after the other are their leading frames, to the end. -/
theorem leadingFrames_frames :
    ∀ (payloads : List (List UInt8)), (∀ p ∈ payloads, p.length + 4 < 2 ^ 31) →
      leadingFrames (payloads.map frame).flatten = (payloads, []) ∧ headersSafe (payloads.map frame).flatten = true
  | [], _ => by
    rw [List.map_nil, List.flatten_nil, leadingFrames, dif_neg (by simp), headersSafe, dif_neg (by simp)]
    exact ⟨rfl, rfl⟩
  | p :: ps, hlen => by
    obtain ⟨hframes, hsafe⟩ := leadingFrames_frames ps fun q hq => hlen q (List.mem_cons_of_mem p hq)
    obtain ⟨hhead, hsafeHead⟩ := leadingFrames_frame (hlen p List.mem_cons_self) (ps.map frame).flatten
    rw [List.map_cons, List.flatten_cons, hhead, hsafeHead, hframes, hsafe]
    exact ⟨rfl, rfl⟩

/-! ### The codec as a whole -/

end Fluvio.Protocol
