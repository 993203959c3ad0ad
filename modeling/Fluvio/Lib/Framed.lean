import Mathlib.Data.List.Basic

/-!
A frame decoder run the way a framed stream runs it: bytes arrive in chunks, each chunk is
appended to a buffer, and the decoder is called on the buffer until it finds no frame.

* `FrameDecoder` — one call of the decoder: the frame it splits off the front of the
  buffer, if any, and the buffer it leaves; a frame always shortens the buffer.
* `FrameDecoder.drain` — the calls until one finds no frame; `FrameDecoder.feed` — the
  same after each chunk of a stream.
* `FrameDecoder.PrefixStable` — more bytes behind the buffer change neither a frame
  found nor an error; then the frames a stream yields do not depend on how it is cut
  into chunks (`FrameDecoder.feed_eq_drain`).
-/

namespace Framed

/-- A decoder that splits frames off the front of a buffer of `β`s, with errors in `ε`. -/
structure FrameDecoder (β ε α : Type) where
  decode : List β → Except ε (Option α × List β)
  shrinks : ∀ {s : List β} {f : α} {s' : List β}, decode s = .ok (some f, s') → s'.length < s.length

namespace FrameDecoder

variable {β ε α : Type}

/-- The decoder called until it finds no frame: the frames it found, then the error it
stopped on or the buffer it left. -/
def drain (d : FrameDecoder β ε α) (s : List β) : List α × Except ε (List β) :=
  match h : d.decode s with
  | .error e => ([], .error e)
  | .ok (none, s') => ([], .ok s')
  | .ok (some f, s') =>
    have := d.shrinks h
    let r := d.drain s'
    (f :: r.1, r.2)
termination_by s.length

/-- The chunks of a stream appended to the buffer one after the other, the buffer drained
after each; an error ends the stream. -/
def feed (d : FrameDecoder β ε α) (buf : List β) : List (List β) → List α × Except ε (List β)
  | [] => ([], .ok buf)
  | c :: cs =>
    match d.drain (buf ++ c) with
    | (fs, .error e) => (fs, .error e)
    | (fs, .ok buf') =>
      let r := d.feed buf' cs
      (fs ++ r.1, r.2)

/-- What a decoder needs for its frames not to depend on the chunking: finding no frame
leaves the buffer as it is, and bytes behind the buffer change neither a frame found nor
an error. -/
structure PrefixStable (d : FrameDecoder β ε α) : Prop where
  none_same : ∀ {s s' : List β}, d.decode s = .ok (none, s') → s' = s
  some_append : ∀ {s : List β} {f : α} {s' : List β} (c : List β),
    d.decode s = .ok (some f, s') → d.decode (s ++ c) = .ok (some f, s' ++ c)
  error_append : ∀ {s : List β} {e : ε} (c : List β), d.decode s = .error e → d.decode (s ++ c) = .error e

variable (d : FrameDecoder β ε α)

theorem drain_error {s : List β} {e : ε} (h : d.decode s = .error e) : d.drain s = ([], .error e) := by
  rw [drain]
  split <;> simp_all

theorem drain_none {s s' : List β} (h : d.decode s = .ok (none, s')) : d.drain s = ([], .ok s') := by
  rw [drain]
  split <;> simp_all

theorem drain_some {s s' : List β} {f : α} (h : d.decode s = .ok (some f, s')) :
    d.drain s = (f :: (d.drain s').1, (d.drain s').2) := by
  rw [drain]
  split <;> simp_all

variable {d}

/-- A drained buffer has no frame at its front. -/
theorem decode_drain (hd : d.PrefixStable) {s r : List β} (h : (d.drain s).2 = .ok r) :
    d.decode r = .ok (none, r) := by
  induction s using WellFounded.induction (measure List.length).wf with
  | _ s ih =>
    rcases hdec : d.decode s with e | ⟨_ | f, s'⟩
    · rw [d.drain_error hdec] at h
      cases h
    · rw [d.drain_none hdec] at h
      cases h
      obtain rfl := hd.none_same hdec
      exact hdec
    · rw [d.drain_some hdec] at h
      exact ih s' (d.shrinks hdec) h

/-- Draining a longer buffer finds the same frames, then drains what was left together
with the extra bytes; an error stays the same error. -/
theorem drain_append (hd : d.PrefixStable) (s c : List β) :
    d.drain (s ++ c) =
      match d.drain s with
      | (fs, .error e) => (fs, .error e)
      | (fs, .ok r) => (fs ++ (d.drain (r ++ c)).1, (d.drain (r ++ c)).2) := by
  induction s using WellFounded.induction (measure List.length).wf with
  | _ s ih =>
    rcases hdec : d.decode s with e | ⟨_ | f, s'⟩
    · rw [d.drain_error hdec, d.drain_error (hd.error_append c hdec)]
    · rw [d.drain_none hdec, ← hd.none_same hdec]
      rfl
    · -- the frame is found again, and the rest is drained with the extra bytes
      rw [d.drain_some hdec, d.drain_some (hd.some_append c hdec), ih s' (d.shrinks hdec)]
      rcases d.drain s' with ⟨fs, _ | r⟩ <;> rfl

/-- **The frames of a stream do not depend on its chunking.** Fed from a buffer with no
frame at its front, the chunks give what draining all their bytes at once gives. -/
theorem feed_eq_drain (hd : d.PrefixStable) :
    ∀ (cs : List (List β)) {buf : List β}, d.decode buf = .ok (none, buf) →
      d.feed buf cs = d.drain (buf ++ cs.flatten)
  | [], buf, hbuf => by
    rw [feed, List.flatten_nil, List.append_nil, d.drain_none hbuf]
  | c :: cs, buf, hbuf => by
    rw [feed, List.flatten_cons, ← List.append_assoc, drain_append hd (buf ++ c) cs.flatten]
    rcases hc : d.drain (buf ++ c) with ⟨fs, e | buf'⟩
    · rfl
    · -- the buffer left after the chunk has no frame at its front
      have hbuf' : d.decode buf' = .ok (none, buf') := decode_drain hd (by rw [hc])
      simp only
      rw [feed_eq_drain hd cs hbuf']

end FrameDecoder

end Framed
