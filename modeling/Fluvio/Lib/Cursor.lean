import Mathlib.Data.List.Basic

/-!
Decoders over a byte cursor. A decoder reads from the front of a byte string and
hands back a value and the bytes it did not read, or an error together with the
position it stopped at: a caller that catches the error resumes from there, the
way a reader over a mutable buffer does.

* `Decoder.limit n d` — run `d` on the first `n` bytes only, the rest of the
  input staying behind it (a length-prefixed field, a bounded sub-buffer).
* `bind_ok`, `bind_error` and `limit_append` — the rewriting rules the
  round-trip proofs of a concrete format are assembled from.
* `ReadsExactly d bytes a` — `d` consumes exactly `bytes`, whatever follows
  them, and returns `a`; it composes along `bind` (`ReadsExactly.bind`).
* `catWrites` and `ReadsWrite.cons` — a record written field after field is read
  by its fields' readers chained with `bind`, without taking its bytes apart.
-/

namespace Cursor

/-- The outcome of a decoder: a value, or an error; both with the unread bytes. -/
inductive Result (ε α : Type) where
  | ok (value : α) (rest : List UInt8)
  | error (err : ε) (rest : List UInt8)
deriving DecidableEq, Repr

/-- A decoder with errors in `ε`. -/
def Decoder (ε α : Type) : Type := List UInt8 → Result ε α

variable {ε α β : Type}

/-- Continue a result with the next decoder. -/
def Result.andThen : Result ε α → (α → Decoder ε β) → Result ε β
  | .ok a rest, f => f a rest
  | .error e rest, _ => .error e rest

/-- Apply a function to a successful value. -/
def Result.map (f : α → β) : Result ε α → Result ε β
  | .ok a rest => .ok (f a) rest
  | .error e rest => .error e rest

/-- The unread bytes of a result. -/
def Result.rest : Result ε α → List UInt8
  | .ok _ rest => rest
  | .error _ rest => rest

/-- Whether a result is a success. -/
def Result.isOk : Result ε α → Bool
  | .ok _ _ => true
  | .error _ _ => false

instance : Monad (Decoder ε) where
  pure a := fun s => .ok a s
  bind d f := fun s => (d s).andThen f

namespace Decoder

/-- Fail with `e` without moving. -/
def fail (e : ε) : Decoder ε α := fun s => .error e s

/-- The number of unread bytes. -/
def remaining : Decoder ε Nat := fun s => .ok s.length s

/-- Take `n` bytes off the front (fewer when the input is shorter). -/
def advance (n : Nat) : Decoder ε (List UInt8) := fun s => .ok (s.take n) (s.drop n)

/-- Run `d` on the first `n` unread bytes; what `d` leaves of them comes back in
front of the bytes after them. -/
def limit (n : Nat) (d : Decoder ε α) : Decoder ε α := fun s =>
  match d (s.take n) with
  | .ok a rest => .ok a (rest ++ s.drop n)
  | .error e rest => .error e (rest ++ s.drop n)

end Decoder

@[simp] theorem pure_apply (a : α) (s : List UInt8) :
    (pure a : Decoder ε α) s = .ok a s := rfl

@[simp] theorem bind_apply (d : Decoder ε α) (f : α → Decoder ε β) (s : List UInt8) :
    (d >>= f) s = (d s).andThen f := rfl

@[simp] theorem Result.andThen_ok (a : α) (rest : List UInt8) (f : α → Decoder ε β) :
    (Result.ok a rest).andThen f = f a rest := rfl

@[simp] theorem Result.andThen_error (e : ε) (rest : List UInt8) (f : α → Decoder ε β) :
    (Result.error e rest : Result ε α).andThen f = .error e rest := rfl

theorem bind_ok {d : Decoder ε α} {f : α → Decoder ε β} {s rest : List UInt8} {a : α}
    (h : d s = .ok a rest) : (d >>= f) s = f a rest := by
  simp [h]

theorem bind_error {d : Decoder ε α} {f : α → Decoder ε β} {s rest : List UInt8} {e : ε}
    (h : d s = .error e rest) : (d >>= f) s = .error e rest := by
  simp [h]

/-- A decoder followed by a pure function maps its result. -/
theorem bind_pure_apply (d : Decoder ε α) (g : α → β) (s : List UInt8) :
    (d >>= fun a => pure (g a)) s = (d s).map g := by
  cases h : d s <;> simp [h, Result.map]

/-- Inversion of a successful `bind`: both halves succeeded. -/
theorem bind_eq_ok {d : Decoder ε α} {f : α → Decoder ε β} {s rest : List UInt8} {b : β}
    (h : (d >>= f) s = .ok b rest) :
    ∃ a mid, d s = .ok a mid ∧ f a mid = .ok b rest := by
  simp only [bind_apply] at h
  cases hd : d s with
  | ok a mid => exact ⟨a, mid, rfl, by rw [hd] at h; exact h⟩
  | error e r => rw [hd] at h; cases h

@[simp] theorem fail_apply (e : ε) (s : List UInt8) :
    (Decoder.fail e : Decoder ε α) s = .error e s := rfl

@[simp] theorem remaining_apply (s : List UInt8) :
    (Decoder.remaining : Decoder ε Nat) s = .ok s.length s := rfl

@[simp] theorem advance_apply (n : Nat) (s : List UInt8) :
    (Decoder.advance n : Decoder ε (List UInt8)) s = .ok (s.take n) (s.drop n) := rfl

theorem advance_append (xs rest : List UInt8) :
    (Decoder.advance xs.length : Decoder ε (List UInt8)) (xs ++ rest) = .ok xs rest := by
  simp

/-- A decoder run on a bounded prefix that it reads to the end. -/
theorem limit_append (d : Decoder ε α) (xs rest : List UInt8) {a : α}
    (h : d xs = .ok a []) : Decoder.limit xs.length d (xs ++ rest) = .ok a rest := by
  simp [Decoder.limit, h]

theorem limit_apply (n : Nat) (d : Decoder ε α) (s : List UInt8) :
    Decoder.limit n d s = match d (s.take n) with
      | .ok a rest => .ok a (rest ++ s.drop n)
      | .error e rest => .error e (rest ++ s.drop n) := rfl

/-! ### Exact readers -/

/-- `d` reads exactly `bytes` and returns `a`, whatever bytes follow, on every input
shorter than `bound`. The bound is where a decoder's arithmetic on lengths is
exact: a reader over machine-sized buffers is only asked about inputs that fit. -/
def ReadsExactly (bound : Nat) (d : Decoder ε α) (bytes : List UInt8) (a : α) : Prop :=
  ∀ rest, (bytes ++ rest).length < bound → d (bytes ++ rest) = .ok a rest

variable {bound : Nat}

theorem ReadsExactly.pure (a : α) : ReadsExactly bound (pure a : Decoder ε α) [] a := by
  intro rest _
  rfl

theorem ReadsExactly.bind {d : Decoder ε α} {f : α → Decoder ε β} {xs ys : List UInt8}
    {a : α} {b : β} (hd : ReadsExactly bound d xs a) (hf : ReadsExactly bound (f a) ys b) :
    ReadsExactly bound (d >>= f) (xs ++ ys) b := by
  intro rest hlen
  rw [List.append_assoc] at hlen ⊢
  rw [bind_ok (hd (ys ++ rest) hlen)]
  apply hf rest
  simp only [List.length_append] at hlen ⊢
  omega

theorem ReadsExactly.advance (xs : List UInt8) :
    ReadsExactly bound (Decoder.advance xs.length : Decoder ε (List UInt8)) xs xs :=
  fun rest _ => advance_append xs rest

theorem ReadsExactly.limit {d : Decoder ε α} {xs : List UInt8} {a : α}
    (h : ReadsExactly bound d xs a) : ReadsExactly bound (Decoder.limit xs.length d) xs a := by
  intro rest hlen
  apply limit_append
  have hxs : (xs ++ []).length < bound := by
    simp only [List.length_append, List.length_nil] at hlen ⊢
    omega
  simpa using h [] hxs

theorem ReadsExactly.mono {bound' : Nat} {d : Decoder ε α} {xs : List UInt8} {a : α}
    (hle : bound' ≤ bound) (h : ReadsExactly bound d xs a) : ReadsExactly bound' d xs a :=
  fun rest hlen => h rest (Nat.lt_of_lt_of_le hlen hle)

/-! ### Writers -/

/-- Writes one after another, as the fields of a record are written; a write that
never ends (`none`) leaves nothing after it. -/
def catWrites : List (Option (List UInt8)) → Option (List UInt8)
  | [] => some []
  | e :: es => do pure ((← e) ++ (← catWrites es))

/-- The sizes writes announce, added up. -/
def sumSizes : List (Option Nat) → Option Nat
  | [] => some 0
  | s :: ss => do pure ((← s) + (← sumSizes ss))

/-- Sizes that are the lengths of the writes add up to the length of their concatenation. -/
theorem sumSizes_map_length (es : List (Option (List UInt8))) :
    sumSizes (es.map (·.map List.length)) = (catWrites es).map List.length := by
  induction es with
  | nil => rfl
  | cons e es ih =>
    rw [List.map_cons, sumSizes, ih, catWrites]
    cases e <;> cases catWrites es <;> simp

/-- Writes that each finish finish one after another. -/
theorem catWrites_cons_isSome {e : Option (List UInt8)} {es : List (Option (List UInt8))} (he : e.isSome)
    (hes : (catWrites es).isSome) : (catWrites (e :: es)).isSome := by
  obtain ⟨x, rfl⟩ := Option.isSome_iff_exists.mp he
  obtain ⟨xs, hxs⟩ := Option.isSome_iff_exists.mp hes
  simp [catWrites, hxs]

/-- `d` reads back whatever bytes the write `e` gives, as `a`. -/
def ReadsWrite (bound : Nat) (d : Decoder ε α) (e : Option (List UInt8)) (a : α) : Prop :=
  ∀ bytes, e = some bytes → ReadsExactly bound d bytes a

theorem ReadsWrite.nil (a : α) : ReadsWrite bound (pure a : Decoder ε α) (catWrites []) a := by
  intro bytes h
  obtain rfl : [] = bytes := Option.some.inj h
  exact ReadsExactly.pure a

/-- A record's readers chain as its writes do. -/
theorem ReadsWrite.cons {d : Decoder ε α} {f : α → Decoder ε β} {e : Option (List UInt8)}
    {es : List (Option (List UInt8))} {a : α} {b : β} (hd : ReadsWrite bound d e a)
    (hf : ReadsWrite bound (f a) (catWrites es) b) : ReadsWrite bound (d >>= f) (catWrites (e :: es)) b := by
  intro bytes h
  simp only [catWrites, Option.bind_eq_bind, Option.bind_eq_some_iff, Option.pure_def,
    Option.some.injEq] at h
  obtain ⟨x, hx, xs, hxs, rfl⟩ := h
  exact (hd x hx).bind (hf xs hxs)

/-- A reader of a write, followed by a step that reads nothing more. -/
theorem ReadsWrite.bind_nil {d : Decoder ε α} {f : α → Decoder ε β} {e : Option (List UInt8)} {a : α} {b : β}
    (hd : ReadsWrite bound d e a) (hf : ReadsExactly bound (f a) [] b) : ReadsWrite bound (d >>= f) e b := by
  intro bytes he
  simpa using (hd bytes he).bind hf

end Cursor
