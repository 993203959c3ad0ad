import Fluvio.Lib.BigEndian
import Fluvio.Lib.Cursor

/-!
The core of the Fluvio wire codec (`fluvio-protocol/src/core/encoder.rs` and
`decoder.rs`): the `Encoder` and `Decoder` traits, the machine integers, `bool`,
`Vec<M>` and `Option<M>`.

Encoders write into a `Vec<u8>`, whose `remaining_mut()` never runs out, so the
capacity checks of the source never fire and an encoding is a byte string. It is
an `Option` because the varint encoder (`Fluvio.Protocol.Varint`) loops forever
on some inputs; `none` is that non-termination, and every encoder built on it
inherits it. Decoders run on a byte cursor; their errors are `io::Error`s, which
callers match on by kind, or panics, which no caller catches. Arithmetic follows
a build with overflow checks: an overflowing `usize` subtraction is a panic.
`usize` is 64 bits wide.
-/

namespace Fluvio.Protocol

open BigEndian Cursor

/-- The `std::io::ErrorKind`s the decoders raise and their callers test for. -/
inductive ErrorKind where
  | unexpectedEof
  | invalidData
  | other
deriving DecidableEq, Repr

/-- A decoding failure: an `io::Error`, or a panic that unwinds past every caller. -/
inductive DecodeError where
  | io (kind : ErrorKind) (msg : String)
  | panic (msg : String)
deriving DecidableEq, Repr

/-- Decoders of the wire format. -/
abbrev Decode := Decoder DecodeError

/-- `Err(Error::new(ErrorKind::UnexpectedEof, msg))`. -/
def eof {α : Type} (msg : String) : Decode α := Decoder.fail (.io .unexpectedEof msg)

/-- The `Encoder` trait: `write_size` and `encode` into a `Vec<u8>`. -/
class Encoder (α : Type) where
  writeSize : α → Option Nat
  encode : α → Option (List UInt8)

/-- The `Decoder` trait, decoding into a default value. -/
class Decoder (α : Type) where
  decode : Decode α

export Encoder (writeSize encode)

/-- `isize::MAX`, the largest capacity a `Vec` can be asked for. -/
def isizeMax : Nat := 2 ^ 63 - 1

/-- No buffer holds more than `isize::MAX` bytes, so the decoders' casts of lengths
to `i64` are exact on every input they can be given. -/
def bufferLimit : Nat := isizeMax + 1

/-- The size `write_size` announces for `x` is the length of its encoding. -/
def SizeAgreesAt {α : Type} [Encoder α] (x : α) : Prop := writeSize x = (encode x).map List.length

/-- `write_size` agrees with `encode` on every value of the type. -/
def SizeAgrees (α : Type) [Encoder α] : Prop := ∀ x : α, SizeAgreesAt x

/-- Decoding the encoding of `x` gives `x` back and reads exactly the encoding. -/
def ReadsBack {α : Type} [Encoder α] [Decoder α] (x : α) : Prop :=
  ∀ bytes, encode x = some bytes → ReadsExactly bufferLimit (Decoder.decode : Decode α) bytes x

/-- Every value of the type reads back. -/
def RoundTrips (α : Type) [Encoder α] [Decoder α] : Prop := ∀ x : α, ReadsBack x

/-! ### `usize` arithmetic -/

/-- `a - b` on `usize` with overflow checks. -/
def usizeSub (a b : Nat) : Decode Nat :=
  if a < b then Decoder.fail (.panic "attempt to subtract with overflow") else pure (a - b)

/-- `x as usize` for an `i32`: sign extension to 64 bits. -/
def Int32.asUsize (x : Int32) : Nat := x.toInt64.toUInt64.toNat

/-- `x as usize` for an `i64`: the same 64 bits read unsigned. -/
def Int64.asUsize (x : Int64) : Nat := x.toUInt64.toNat

theorem Int32.asUsize_of_nonneg {x : Int32} (h : 0 ≤ x.toInt) : Int32.asUsize x = x.toInt.toNat := by
  have h64 : (0 : Int64) ≤ x.toInt64 := by
    rw [Int64.le_iff_toInt_le, Int32.toInt_toInt64]
    simpa using h
  unfold Int32.asUsize
  rw [← Int64.toNat_toBitVec, Int64.toNat_toBitVec_of_le h64, Int32.toNatClampNeg_toInt64]
  rfl

theorem Int32.asUsize_ofNat {n : Nat} (h : n < 2 ^ 31) : Int32.asUsize (Int32.ofNat n) = n := by
  have hn : (Int32.ofNat n).toInt = n := Int32.toInt_ofNat_of_lt h
  rw [Int32.asUsize_of_nonneg (by omega), hn, Int.toNat_natCast]

/-- A negative `i32` as `usize`: sign extension wraps it below `2 ^ 64`. -/
theorem Int32.asUsize_of_neg {x : Int32} (h : x.toInt < 0) : Int32.asUsize x = (x.toInt + 2 ^ 64).toNat := by
  unfold Int32.asUsize
  have h64 : x.toInt64.toInt = x.toInt := Int32.toInt_toInt64 x
  have hbv : x.toInt64.toInt = x.toInt64.toBitVec.toInt := rfl
  rw [BitVec.toInt_eq_toNat_cond] at hbv
  have hlt := x.toInt64.toBitVec.isLt
  show x.toInt64.toBitVec.toNat = _
  split at hbv <;> omega

/-- A count between `2 ^ 31` and `2 ^ 32` stored as `i32` comes back as `usize` near `2 ^ 64`. -/
theorem Int32.asUsize_ofNat_wrap {n : Nat} (h1 : 2 ^ 31 ≤ n) (h2 : n < 2 ^ 32) :
    Int32.asUsize (Int32.ofNat n) = 2 ^ 64 - 2 ^ 32 + n := by
  have hn : (Int32.ofNat n).toInt = n - 2 ^ 32 := by
    rw [Int32.toInt_ofNat', Int.bmod_def, show (Int32.size : Int) = 2 ^ 32 from rfl]
    split <;> omega
  rw [Int32.asUsize_of_neg (by omega), hn]
  omega

theorem Int64.asUsize_ofNat {n : Nat} (h : n < 2 ^ 64) : Int64.asUsize (Int64.ofNat n) = n := by
  show (Int64.ofNat n).toUInt64.toNat = n
  simp
  omega

@[simp] theorem usizeSub_of_le {a b : Nat} (h : b ≤ a) (s : List UInt8) :
    usizeSub a b s = .ok (a - b) s := by
  simp [usizeSub, Nat.not_lt.mpr h]

theorem usizeSub_of_lt {a b : Nat} (h : a < b) (s : List UInt8) :
    usizeSub a b s = .error (.panic "attempt to subtract with overflow") s := by
  simp [usizeSub, h]

theorem usizeSub_reads {a b : Nat} (h : b ≤ a) (bound : Nat) :
    ReadsExactly bound (usizeSub a b) [] (a - b) :=
  fun rest _ => usizeSub_of_le h rest

/-! ### Fixed-width integers -/

/-- A machine integer as `width` big-endian bytes of its bit pattern. -/
structure FixedWidth (α : Type) where
  width : Nat
  toBits : α → Nat
  ofBits : Nat → α
  toBits_lt : ∀ x, toBits x < 256 ^ width
  ofBits_toBits : ∀ x, ofBits (toBits x) = x

/-- `put_*`: the bytes of a fixed-width value. -/
def FixedWidth.put {α : Type} (f : FixedWidth α) (x : α) : List UInt8 := bytes f.width (f.toBits x)

/-- `if src.remaining() < width { return Err(UnexpectedEof, msg) }; src.get_*()`. -/
def FixedWidth.get {α : Type} (f : FixedWidth α) (msg : String) : Decode α := do
  if (← Decoder.remaining) < f.width then eof msg
  else
    let bs ← Decoder.advance f.width
    pure (f.ofBits (value bs))

@[simp] theorem FixedWidth.length_put {α : Type} (f : FixedWidth α) (x : α) :
    (f.put x).length = f.width := length_bytes _ _

theorem FixedWidth.get_put {α : Type} (f : FixedWidth α) (msg : String) (x : α) (bound : Nat) :
    ReadsExactly bound (f.get msg) (f.put x) x := by
  intro rest _
  have hlen : f.width ≤ (f.put x ++ rest).length := by simp
  simp only [FixedWidth.get, bind_apply, remaining_apply, Result.andThen_ok,
    Nat.not_lt.mpr hlen, if_false]
  rw [show f.width = (f.put x).length by simp, advance_append]
  simp [FixedWidth.put, value_bytes_of_lt (f.toBits_lt x), f.ofBits_toBits]

theorem FixedWidth.get_put_apply {α : Type} (f : FixedWidth α) (msg : String) (x : α)
    (rest : List UInt8) : f.get msg (f.put x ++ rest) = .ok x rest :=
  f.get_put msg x _ rest (Nat.lt_succ_self _)

/-- An encoder that writes a fixed-width value. -/
@[reducible] def FixedWidth.encoder {α : Type} (f : FixedWidth α) : Encoder α where
  writeSize _ := some f.width
  encode x := some (f.put x)

theorem FixedWidth.sizeAgrees {α : Type} (f : FixedWidth α) :
    @SizeAgrees α f.encoder := by
  intro x
  show some f.width = (some (f.put x)).map List.length
  simp

theorem FixedWidth.roundTrips {α : Type} (f : FixedWidth α) (msg : String) :
    @RoundTrips α f.encoder ⟨f.get msg⟩ := by
  intro x bs h
  obtain rfl : f.put x = bs := Option.some.inj h
  exact f.get_put msg x bufferLimit

/-- `u8`. -/
def u8Width : FixedWidth UInt8 :=
  ⟨1, UInt8.toNat, UInt8.ofNat, fun x => by simpa using x.toNat_lt, fun _ => UInt8.ofNat_toNat⟩

/-- `i8`: the two's complement bits of the value. -/
def i8Width : FixedWidth Int8 :=
  ⟨1, fun x => x.toUInt8.toNat, fun n => (UInt8.ofNat n).toInt8,
    fun x => by simpa using x.toUInt8.toNat_lt,
    fun x => by simp only [UInt8.ofNat_toNat, Int8.toInt8_toUInt8]⟩

/-- `u16`. -/
def u16Width : FixedWidth UInt16 :=
  ⟨2, UInt16.toNat, UInt16.ofNat, fun x => by simpa using x.toNat_lt, fun _ => UInt16.ofNat_toNat⟩

/-- `i16`. -/
def i16Width : FixedWidth Int16 :=
  ⟨2, fun x => x.toUInt16.toNat, fun n => (UInt16.ofNat n).toInt16,
    fun x => by simpa using x.toUInt16.toNat_lt,
    fun x => by simp only [UInt16.ofNat_toNat, Int16.toInt16_toUInt16]⟩

/-- `u32`. -/
def u32Width : FixedWidth UInt32 :=
  ⟨4, UInt32.toNat, UInt32.ofNat, fun x => by simpa using x.toNat_lt, fun _ => UInt32.ofNat_toNat⟩

/-- `i32`. -/
def i32Width : FixedWidth Int32 :=
  ⟨4, fun x => x.toUInt32.toNat, fun n => (UInt32.ofNat n).toInt32,
    fun x => by simpa using x.toUInt32.toNat_lt,
    fun x => by simp only [UInt32.ofNat_toNat, Int32.toInt32_toUInt32]⟩

/-- `u64`. -/
def u64Width : FixedWidth UInt64 :=
  ⟨8, UInt64.toNat, UInt64.ofNat, fun x => by simpa using x.toNat_lt, fun _ => UInt64.ofNat_toNat⟩

/-- `i64`. -/
def i64Width : FixedWidth Int64 :=
  ⟨8, fun x => x.toUInt64.toNat, fun n => (UInt64.ofNat n).toInt64,
    fun x => by simpa using x.toUInt64.toNat_lt,
    fun x => by simp only [UInt64.ofNat_toNat, Int64.toInt64_toUInt64]⟩

@[simp] theorem u32Width_width : u32Width.width = 4 := rfl

@[simp] theorem i32Width_width : i32Width.width = 4 := rfl

instance : Encoder UInt8 := u8Width.encoder
instance : Encoder Int8 := i8Width.encoder
instance : Encoder UInt16 := u16Width.encoder
instance : Encoder Int16 := i16Width.encoder
instance : Encoder UInt32 := u32Width.encoder
instance : Encoder Int32 := i32Width.encoder
instance : Encoder UInt64 := u64Width.encoder
instance : Encoder Int64 := i64Width.encoder

instance : Decoder UInt8 := ⟨u8Width.get "not enough buf for u8"⟩
instance : Decoder Int8 := ⟨i8Width.get "not enough buf for i8"⟩
instance : Decoder UInt16 := ⟨u16Width.get "can't read u16"⟩
instance : Decoder Int16 := ⟨i16Width.get "can't read i16"⟩
instance : Decoder UInt32 := ⟨u32Width.get "can't read u32"⟩
instance : Decoder Int32 := ⟨i32Width.get "can't read i32"⟩
instance : Decoder UInt64 := ⟨u64Width.get "can't read u64"⟩
instance : Decoder Int64 := ⟨i64Width.get "can't read i64"⟩

/-! ### `bool` -/

instance : Encoder Bool where
  writeSize _ := some 1
  encode b := some [if b then 1 else 0]

instance : Decoder Bool where
  decode := do
    if (← Decoder.remaining) < 1 then eof "not enough buf for bool"
    else
      match (← Decoder.advance 1) with
      | [0] => pure false
      | [1] => pure true
      | _ => Decoder.fail (.io .invalidData "not valid bool value")

theorem Bool.sizeAgrees : SizeAgrees Bool := by
  intro b
  rfl

theorem Bool.roundTrips : RoundTrips Bool := by
  intro b bs h rest _
  simp only [encode, Option.some.injEq] at h
  subst h
  cases b <;> rfl

/-! ### `Vec<M>` -/

section Vec

variable {M : Type}

/-- The step of the `write_size` folds: `sum + val.write_size()`. -/
def addWriteSize [Encoder M] (sum : Option Nat) (x : M) : Option Nat := do
  pure ((← sum) + (← writeSize x))

/-- `Vec<M>::write_size`: `fold(4, |sum, val| sum + val.write_size())`. -/
def vecWriteSize [Encoder M] (xs : List M) : Option Nat := xs.foldl addWriteSize (some 4)

/-- The encodings of the elements, one after another. -/
def encodeAll [Encoder M] : List M → Option (List UInt8)
  | [] => some []
  | x :: xs => do pure ((← encode x) ++ (← encodeAll xs))

/-- `Vec<M>::encode`: the length as `u32`, then each element. -/
def vecEncode [Encoder M] (xs : List M) : Option (List UInt8) := do
  pure (u32Width.put (UInt32.ofNat xs.length) ++ (← encodeAll xs))

instance [Encoder M] : Encoder (List M) := ⟨vecWriteSize, vecEncode⟩

/-- `decode_vec`: decode `n` more elements pushing each onto `acc`. On an error
the vector keeps the elements pushed before it, which `memory_records` reads. -/
def decodeVec [Decoder M] : Nat → List M → List UInt8 → List M × Result DecodeError Unit
  | 0, acc, s => (acc, .ok () s)
  | n + 1, acc, s =>
    match (Decoder.decode : Decode M) s with
    | .ok m rest => decodeVec n (acc ++ [m]) rest
    | .error e rest => (acc, .error e rest)

/-- `Vec<M>::decode` into an empty vector: the vector it leaves and the result. A
length below one decodes to nothing. -/
def vecDecodeInto [Decoder M] (s : List UInt8) : List M × Result DecodeError Unit :=
  match (Decoder.decode : Decode Int32) s with
  | .error e rest => ([], .error e rest)
  | .ok len rest => if len < 1 then ([], .ok () rest) else decodeVec len.toInt.toNat [] rest

/-- `Vec<M>::decode` as a decoder of the vector. -/
def vecDecode [Decoder M] : Decode (List M) := fun s =>
  match vecDecodeInto s with
  | (xs, .ok () rest) => .ok xs rest
  | (_, .error e rest) => .error e rest

instance [Decoder M] : Decoder (List M) := ⟨vecDecode⟩

theorem foldl_addWriteSize_none [Encoder M] (xs : List M) : xs.foldl addWriteSize none = none := by
  induction xs with
  | nil => rfl
  | cons x xs ih => exact ih

/-- The `write_size` fold from `k` adds the length of the concatenated encodings. -/
theorem foldl_addWriteSize [Encoder M] {xs : List M} (h : ∀ x ∈ xs, SizeAgreesAt x) (k : Nat) :
    xs.foldl addWriteSize (some k) = (encodeAll xs).map (k + ·.length) := by
  induction xs generalizing k with
  | nil => simp [encodeAll]
  | cons x xs ih =>
    have hx : SizeAgreesAt x := h x List.mem_cons_self
    have ih' := ih (fun y hy => h y (List.mem_cons_of_mem x hy))
    rw [List.foldl_cons]
    cases he : encode x with
    | none =>
      have hsize : writeSize x = none := by rw [hx, he]; rfl
      simp [addWriteSize, hsize, foldl_addWriteSize_none, encodeAll, he]
    | some e =>
      have hsize : writeSize x = some e.length := by rw [hx, he]; rfl
      have hstep : addWriteSize (some k) x = some (k + e.length) := by
        simp [addWriteSize, hsize]
      rw [hstep, ih']
      cases hxs : encodeAll xs <;> simp [encodeAll, he, hxs, Nat.add_assoc]

theorem encodeAll_isSome [Encoder M] {xs : List M} (h : ∀ x ∈ xs, (Encoder.encode x).isSome) :
    (encodeAll xs).isSome := by
  induction xs with
  | nil => rfl
  | cons x xs ih =>
    obtain ⟨e, he⟩ := Option.isSome_iff_exists.mp (h x List.mem_cons_self)
    obtain ⟨es, hes⟩ := Option.isSome_iff_exists.mp (ih fun y hy => h y (List.mem_cons_of_mem x hy))
    simp [encodeAll, he, hes]

/-- A vector whose elements each encode encodes. -/
theorem Vec.encode_isSome [Encoder M] {xs : List M} (h : ∀ x ∈ xs, (Encoder.encode x).isSome) :
    (Encoder.encode xs).isSome := by
  obtain ⟨es, hes⟩ := Option.isSome_iff_exists.mp (encodeAll_isSome h)
  simp [Encoder.encode, vecEncode, hes]

/-- Each element's encoding is a piece of the concatenation. -/
theorem length_le_of_encodeAll [Encoder M] {xs : List M} {out : List UInt8}
    (h : encodeAll xs = some out) {x : M} (hx : x ∈ xs) {e : List UInt8}
    (he : Encoder.encode x = some e) : e.length ≤ out.length := by
  induction xs generalizing out with
  | nil => simp at hx
  | cons y ys ih =>
    simp only [encodeAll, Option.bind_eq_bind] at h
    cases hy : Encoder.encode y with
    | none => simp [hy] at h
    | some ey =>
      cases hys : encodeAll ys with
      | none => simp [hy, hys] at h
      | some eys =>
        simp only [hy, hys, Option.bind_some, Option.pure_def, Option.some.injEq] at h
        subst h
        rw [List.length_append]
        rcases List.mem_cons.mp hx with rfl | hmem
        · rw [hy] at he
          cases he
          omega
        · have := ih hys hmem
          omega

theorem length_le_length_encodeAll {M : Type} [Encoder M] {xs : List M} {out : List UInt8}
    (h : encodeAll xs = some out) (hne : ∀ x ∈ xs, ∀ e, Encoder.encode x = some e → e ≠ []) :
    xs.length ≤ out.length := by
  induction xs generalizing out with
  | nil => simp
  | cons x xs ih =>
    simp only [encodeAll, Option.bind_eq_bind, Option.bind_eq_some_iff, Option.pure_def,
      Option.some.injEq] at h
    obtain ⟨e, he, es, hes, rfl⟩ := h
    have hpos := List.length_pos_iff.mpr (hne x List.mem_cons_self e he)
    have := ih hes fun y hy => hne y (List.mem_cons_of_mem x hy)
    simp only [List.length_cons, List.length_append]
    omega

theorem Vec.sizeAgreesAt [Encoder M] {xs : List M} (h : ∀ x ∈ xs, SizeAgreesAt x) :
    SizeAgreesAt xs := by
  show xs.foldl addWriteSize (some 4) = (vecEncode xs).map List.length
  rw [foldl_addWriteSize h]
  cases hxs : encodeAll xs <;> simp [vecEncode, hxs]

theorem Vec.sizeAgrees [Encoder M] (h : SizeAgrees M) : SizeAgrees (List M) :=
  fun _ => Vec.sizeAgreesAt fun x _ => h x

/-- Decoding the concatenated encodings of `xs` pushes what each element reads back as. -/
theorem decodeVec_encodeAll_map [Encoder M] [Decoder M] (f : M → M) :
    ∀ (xs : List M) (bs : List UInt8) (acc : List M) (rest : List UInt8),
      (∀ x ∈ xs, ReadsWrite bufferLimit Decoder.decode (encode x) (f x)) → encodeAll xs = some bs →
      (bs ++ rest).length < bufferLimit →
      decodeVec xs.length acc (bs ++ rest) = (acc ++ xs.map f, .ok () rest)
  | [], bs, acc, rest, _, hbs, _ => by
    obtain rfl : [] = bs := Option.some.inj hbs
    simp [decodeVec]
  | x :: xs, bs, acc, rest, h, hbs, hlen => by
    simp only [encodeAll, Option.bind_eq_bind] at hbs
    cases hx : encode x with
    | none => simp [hx] at hbs
    | some e =>
      cases hxs : encodeAll xs with
      | none => simp [hx, hxs] at hbs
      | some es =>
        simp only [hx, hxs, Option.bind_some, Option.pure_def, Option.some.injEq] at hbs
        subst hbs
        rw [List.append_assoc] at hlen
        have hdec := h x List.mem_cons_self e hx (es ++ rest) hlen
        have hlen' : (es ++ rest).length < bufferLimit := by
          simp only [List.length_append] at hlen ⊢
          omega
        rw [List.length_cons, decodeVec, List.append_assoc, hdec]
        simp only
        rw [decodeVec_encodeAll_map f xs es (acc ++ [f x]) rest
            (fun y hy => h y (List.mem_cons_of_mem x hy)) hxs hlen',
          List.map_cons, List.append_assoc, List.singleton_append]

/-- Decoding the concatenated encodings of `xs` pushes exactly `xs`. -/
theorem decodeVec_encodeAll [Encoder M] [Decoder M]
    (xs : List M) (bs : List UInt8) (acc : List M) (rest : List UInt8)
    (h : ∀ x ∈ xs, ReadsBack x) (hbs : encodeAll xs = some bs) (hlen : (bs ++ rest).length < bufferLimit) :
    decodeVec xs.length acc (bs ++ rest) = (acc ++ xs, .ok () rest) := by
  simpa using decodeVec_encodeAll_map id xs bs acc rest h hbs hlen

theorem vecDecodeInto_of_len [Decoder M] {s rest : List UInt8} {len : Int32}
    (h : (Decoder.decode : Decode Int32) s = .ok len rest) :
    vecDecodeInto (M := M) s =
      if len < 1 then ([], .ok () rest) else decodeVec len.toInt.toNat [] rest := by
  simp only [vecDecodeInto, h]

theorem vecDecode_apply [Decoder M] (s : List UInt8) :
    vecDecode (M := M) s = match vecDecodeInto s with
      | (xs, .ok () rest) => .ok xs rest
      | (_, .error e rest) => .error e rest := rfl

theorem Int32.toInt_toInt32_ofNat {n : Nat} (h : n < 2 ^ 31) :
    (UInt32.ofNat n).toInt32.toInt = n := by
  rw [UInt32.toInt32_ofNat']
  exact Int32.toInt_ofNat_of_lt h

/-- A vector of fewer than `2 ^ 31` elements reads back as what its elements read back
as; longer ones do not, their `u32` length reading as a negative `i32`. -/
theorem Vec.readsWrite_map [Encoder M] [Decoder M] {xs : List M} (f : M → M)
    (h : ∀ x ∈ xs, ReadsWrite bufferLimit Decoder.decode (encode x) (f x))
    (hlen : xs.length < 2 ^ 31) : ReadsWrite bufferLimit Decoder.decode (encode xs) (xs.map f) := by
  intro bs hbs
  change vecEncode xs = some bs at hbs
  simp only [vecEncode, Option.bind_eq_bind] at hbs
  cases hxs : encodeAll xs with
  | none => simp [hxs] at hbs
  | some es =>
    simp only [hxs, Option.bind_some, Option.pure_def, Option.some.injEq] at hbs
    subst hbs
    intro rest hbound
    have hput : u32Width.put (UInt32.ofNat xs.length) =
        i32Width.put (UInt32.ofNat xs.length).toInt32 := rfl
    have hlenInt := Int32.toInt_toInt32_ofNat hlen
    have hhead : (Decoder.decode : Decode Int32)
        (i32Width.put (UInt32.ofNat xs.length).toInt32 ++ (es ++ rest)) =
          .ok (UInt32.ofNat xs.length).toInt32 (es ++ rest) :=
      i32Width.get_put "can't read i32" _ bufferLimit (es ++ rest)
        (by rw [← hput, ← List.append_assoc]; exact hbound)
    have hes : (es ++ rest).length < bufferLimit := by
      simp only [List.length_append] at hbound ⊢
      omega
    show vecDecode (u32Width.put (UInt32.ofNat xs.length) ++ es ++ rest) = .ok (xs.map f) rest
    rw [List.append_assoc, hput, vecDecode_apply, vecDecodeInto_of_len hhead]
    cases xs with
    | nil =>
      simp only [encodeAll, Option.some.injEq] at hxs
      subst hxs
      have : (UInt32.ofNat 0).toInt32 < 1 := by decide
      simp only [List.length_nil, List.nil_append, if_pos this, List.map_nil]
    | cons x xs' =>
      have hpos : ¬ (UInt32.ofNat (x :: xs').length).toInt32 < 1 := by
        rw [Int32.lt_iff_toInt_lt, hlenInt]
        simp
      rw [if_neg hpos, hlenInt, Int.toNat_natCast, decodeVec_encodeAll_map f _ es [] rest h hxs hes]
      rfl

/-- A vector of fewer than `2 ^ 31` elements that each read back reads back. -/
theorem Vec.readsBack [Encoder M] [Decoder M] {xs : List M} (h : ∀ x ∈ xs, ReadsBack x)
    (hlen : xs.length < 2 ^ 31) : ReadsBack xs := by
  have hmap := Vec.readsWrite_map id h hlen
  rwa [List.map_id] at hmap

end Vec

/-! ### `Option<M>` -/

section Option

variable {M : Type}

instance [Encoder M] : Encoder (Option M) where
  writeSize
    | some v => do pure (1 + (← writeSize v))
    | none => some 1
  encode
    | some v => do pure ([1] ++ (← encode v))
    | none => some [0]

instance [Decoder M] : Decoder (Option M) where
  decode := do
    if (← (Decoder.decode : Decode Bool)) then
      pure (some (← (Decoder.decode : Decode M)))
    else pure none

theorem Option.sizeAgreesAt [Encoder M] {x : Option M} (h : ∀ v, x = some v → SizeAgreesAt v) :
    SizeAgreesAt x := by
  cases x with
  | none => rfl
  | some v =>
    show (writeSize v).bind (fun n => some (1 + n)) =
      ((encode v).bind fun e => some ([1] ++ e)).map List.length
    rw [h v rfl]
    cases encode v <;> simp [Nat.add_comm]

/-- An option whose value encodes encodes. -/
theorem Option.encode_isSome [Encoder M] {x : Option M} (h : ∀ v, x = some v → (Encoder.encode v).isSome) :
    (Encoder.encode x).isSome := by
  cases x with
  | none => rfl
  | some v =>
    obtain ⟨e, he⟩ := Option.isSome_iff_exists.mp (h v rfl)
    show ((encode v).bind fun e => some ([1] ++ e)).isSome
    rw [he]
    rfl

/-- An option reads back as what its value reads back as. -/
theorem Option.readsWrite_map [Encoder M] [Decoder M] {x : Option M} (f : M → M)
    (h : ∀ v, x = some v → ReadsWrite bufferLimit Decoder.decode (encode v) (f v)) :
    ReadsWrite bufferLimit Decoder.decode (encode x) (x.map f) := by
  intro bs hbs rest hlen
  cases x with
  | none =>
    obtain rfl : [0] = bs := Option.some.inj hbs
    rfl
  | some v =>
    change ((encode v).bind fun e => some ([1] ++ e)) = some bs at hbs
    cases hv : encode v with
    | none => simp [hv] at hbs
    | some e =>
      simp only [hv, Option.bind_some, Option.some.injEq] at hbs
      subst hbs
      rw [List.append_assoc] at hlen
      have hdec := h v rfl e hv rest (by simp only [List.length_append] at hlen ⊢; omega)
      show ((Decoder.decode : Decode Bool) >>= fun b =>
        if b then (Decoder.decode : Decode M) >>= fun m => pure (some m) else pure none)
          ([1] ++ e ++ rest) = .ok (some (f v)) rest
      rw [List.append_assoc, bind_ok (Bool.roundTrips true [1] rfl (e ++ rest) hlen)]
      simp [hdec]

theorem Option.readsBack [Encoder M] [Decoder M] {x : Option M} (h : ∀ v, x = some v → ReadsBack v) :
    ReadsBack x := by
  have hmap := Option.readsWrite_map id h
  rwa [Option.map_id, id] at hmap

end Option

end Fluvio.Protocol
