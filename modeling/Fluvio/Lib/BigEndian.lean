import Mathlib.Tactic.Ring
import Mathlib.Tactic.Linarith

/-!
Network byte order. `BigEndian.bytes w n` is the `w`-byte string of `n`,
most significant byte first, with the bits above `8 * w` dropped, and
`BigEndian.value` is the base-256 numeral a byte string spells. Every
fixed-width integer field of a wire format is one of these once the integer is
read as its unsigned bit pattern.

* `value_bytes` — reading back gives `n % 256 ^ w`, so the round trip is exact
  below `256 ^ w` (`value_bytes_of_lt`).
* `bytes_value` — the other direction: a byte string is the encoding of its
  own value at its own width.
* `value_append` — a concatenation spells the shifted sum of its parts.
-/

namespace BigEndian

/-- The `w` bytes of `n`, most significant first. The leading byte keeps only
the low eight bits of `n / 256 ^ w`, which is where the higher bits go. -/
def bytes : Nat → Nat → List UInt8
  | 0, _ => []
  | w + 1, n => UInt8.ofNat (n / 256 ^ w) :: bytes w (n % 256 ^ w)

/-- The value of a big-endian byte string. -/
def value : List UInt8 → Nat
  | [] => 0
  | b :: bs => b.toNat * 256 ^ bs.length + value bs

@[simp] theorem bytes_zero (n : Nat) : bytes 0 n = [] := rfl

theorem bytes_succ (w n : Nat) :
    bytes (w + 1) n = UInt8.ofNat (n / 256 ^ w) :: bytes w (n % 256 ^ w) := rfl

@[simp] theorem length_bytes (w n : Nat) : (bytes w n).length = w := by
  induction w generalizing n with
  | zero => rfl
  | succ w ih => simp [bytes_succ, ih]

@[simp] theorem value_nil : value [] = 0 := rfl

theorem value_cons (b : UInt8) (bs : List UInt8) :
    value (b :: bs) = b.toNat * 256 ^ bs.length + value bs := rfl

theorem value_lt (bs : List UInt8) : value bs < 256 ^ bs.length := by
  induction bs with
  | nil => simp
  | cons b bs ih =>
    have hb : b.toNat < 256 := b.toNat_lt
    rw [value_cons, List.length_cons, pow_succ']
    nlinarith

theorem value_bytes (w n : Nat) : value (bytes w n) = n % 256 ^ w := by
  induction w generalizing n with
  | zero => simp [Nat.mod_one]
  | succ w ih =>
    have htop : (UInt8.ofNat (n / 256 ^ w)).toNat = n / 256 ^ w % 256 := UInt8.toNat_ofNat'
    rw [bytes_succ, value_cons, length_bytes, ih, htop, Nat.mod_mod, pow_succ, Nat.mod_mul]
    ring

theorem value_bytes_of_lt {w n : Nat} (h : n < 256 ^ w) : value (bytes w n) = n := by
  rw [value_bytes, Nat.mod_eq_of_lt h]

theorem bytes_value (bs : List UInt8) : bytes bs.length (value bs) = bs := by
  induction bs with
  | nil => rfl
  | cons b bs ih =>
    have hrest := value_lt bs
    have hpos : 0 < 256 ^ bs.length := by positivity
    have hdiv : (b.toNat * 256 ^ bs.length + value bs) / 256 ^ bs.length = b.toNat := by
      rw [Nat.add_comm, Nat.add_mul_div_right _ _ hpos, Nat.div_eq_of_lt hrest, Nat.zero_add]
    have hmod : (b.toNat * 256 ^ bs.length + value bs) % 256 ^ bs.length = value bs := by
      rw [Nat.add_comm, Nat.add_mul_mod_self_right, Nat.mod_eq_of_lt hrest]
    rw [List.length_cons, bytes_succ, value_cons, hdiv, hmod, ih, UInt8.ofNat_toNat]

theorem value_append (xs ys : List UInt8) :
    value (xs ++ ys) = value xs * 256 ^ ys.length + value ys := by
  induction xs with
  | nil => simp
  | cons x xs ih =>
    rw [List.cons_append, value_cons, value_cons, ih, List.length_append, pow_add]
    ring

/-- Two numbers below `256 ^ w` with the same `w` bytes are equal. -/
theorem bytes_injective {w n m : Nat} (hn : n < 256 ^ w) (hm : m < 256 ^ w)
    (h : bytes w n = bytes w m) : n = m := by
  have := congrArg value h
  rwa [value_bytes_of_lt hn, value_bytes_of_lt hm] at this

end BigEndian
