import Mathlib.Tactic.Ring
import Mathlib.Tactic.Linarith

/-!
Bit-level facts about `Int64` that a codec built from masks and shifts needs:
a mask of contiguous bits selects a digit group (`land_mask`), an `OR` of a group
shifted above the bits already set is an addition (`toNat_or_shiftLeft`), and the
arithmetic shifts by a constant divide by a power of two, on the bit pattern of a
non-negative value (`toNat_shiftRight_of_lt`) and on the signed value
(`toInt_shiftRight_of_smod`). `Int64` shifts take their amount modulo 64 through
`smod`; the hypotheses on `smod` say which amount that is.
-/

namespace Bits

/-- A mask of `k` ones above `j` zeros selects the `k` bits of `x` above the lowest `j`. -/
theorem land_mask (x j k : Nat) : x &&& (2 ^ k - 1) * 2 ^ j = x / 2 ^ j % 2 ^ k * 2 ^ j := by
  apply Nat.eq_of_testBit_eq
  intro i
  rw [Nat.testBit_and, Nat.testBit_mul_two_pow, Nat.testBit_mul_two_pow, Nat.testBit_mod_two_pow,
    Nat.testBit_two_pow_sub_one, Nat.testBit_div_two_pow]
  by_cases h : j ≤ i
  · have : i - j + j = i := by omega
    simp [h, this, Bool.and_comm]
  · simp [h]

/-- A shift amount below 64 is taken as it is. -/
theorem smod_ofNat_toNat {s : Nat} (h : s < 64) : ((Int64.ofNat s).toBitVec.smod 64).toNat = s := by
  have hx : (Int64.ofNat s).toBitVec = BitVec.ofNat 64 s := rfl
  have hxm : (BitVec.ofNat 64 s).msb = false := by
    rw [BitVec.msb_eq_decide]
    simp
    omega
  have hym : (64 : BitVec 64).msb = false := by decide
  rw [hx, BitVec.toNat_smod, hxm, hym]
  simp [BitVec.umod_eq]
  omega

/-- Setting a group above the bits of `num` adds it. -/
theorem toNat_or_shiftLeft (num : Int64) (d : UInt64) {shift : Nat} (hshift : shift < 64)
    (hd : d.toNat * 2 ^ shift < 2 ^ 64) (hnum : num.toBitVec.toNat < 2 ^ shift) :
    (num ||| (d.toInt64 <<< Int64.ofNat shift)).toBitVec.toNat =
      num.toBitVec.toNat + d.toNat * 2 ^ shift := by
  have hd' : d.toBitVec.toNat = d.toNat := rfl
  rw [Int64.toBitVec_or, BitVec.toNat_or, Int64.toBitVec_shiftLeft, UInt64.toBitVec_toInt64,
    BitVec.shiftLeft_eq', smod_ofNat_toNat hshift, BitVec.toNat_shiftLeft, Nat.shiftLeft_eq, hd',
    Nat.mod_eq_of_lt hd, Nat.or_comm, Nat.mul_comm, ← Nat.two_pow_add_eq_or_of_lt hnum,
    Nat.add_comm]

/-- An arithmetic right shift of a non-negative value divides its bits. -/
theorem toNat_shiftRight_of_lt {v : Int64} (h : v.toBitVec.toNat < 2 ^ 63) (k : Int64) {n : Nat}
    (hk : (k.toBitVec.smod 64).toNat = n) : (v >>> k).toBitVec.toNat = v.toBitVec.toNat / 2 ^ n := by
  have hmsb : v.toBitVec.msb = false := by
    rw [BitVec.msb_eq_decide]
    simp
    omega
  rw [Int64.toBitVec_shiftRight, BitVec.sshiftRight_eq', hk, BitVec.sshiftRight_eq_of_msb_false hmsb,
    BitVec.toNat_ushiftRight, Nat.shiftRight_eq_div_pow]

/-- An arithmetic right shift is a division rounding down. -/
theorem toInt_shiftRight_of_smod (v k : Int64) {n : Nat} (hk : (k.toBitVec.smod 64).toNat = n) :
    (v >>> k).toInt = v.toInt / 2 ^ n := by
  rw [← Int64.toInt_toBitVec, Int64.toBitVec_shiftRight, BitVec.toInt_sshiftRight', hk,
    Int.shiftRight_eq_div_pow, Int64.toInt_toBitVec]
  norm_cast

/-- A left shift by one doubles a value that has room for it. -/
theorem toInt_shiftLeft_one {x : Int64} (h1 : -2 ^ 62 ≤ x.toInt) (h2 : x.toInt < 2 ^ 62) :
    (x <<< 1).toInt = 2 * x.toInt := by
  have hone : (1 : Int64).toBitVec.smod 64 = 1#64 := by decide
  have hx := BitVec.toInt_eq_toNat_bmod x.toBitVec
  have hlt := x.toBitVec.isLt
  rw [Int64.toInt_toBitVec] at hx
  rw [← Int64.toInt_toBitVec, Int64.toBitVec_shiftLeft, hone, BitVec.shiftLeft_eq',
    BitVec.toInt_shiftLeft]
  simp only [Int.bmod_def] at hx ⊢
  simp [Nat.shiftLeft_eq]
  omega

/-- The lowest bit of a value, as a value. -/
theorem toInt_and_one (x : Int64) : (x &&& 1).toInt = x.toInt % 2 := by
  have hone : (1 : Int64).toBitVec = 1#64 := rfl
  have hx := BitVec.toInt_eq_toNat_bmod x.toBitVec
  have hlt := x.toBitVec.isLt
  rw [Int64.toInt_toBitVec] at hx
  rw [← Int64.toInt_toBitVec, Int64.toBitVec_and, hone, BitVec.toInt_eq_toNat_bmod, BitVec.toNat_and,
    show (1#64).toNat = 2 ^ 1 - 1 from rfl, Nat.and_two_pow_sub_one_eq_mod]
  simp only [Int.bmod_def] at hx ⊢
  omega

theorem ofNat_lt_ofNat {a b : Nat} (ha : a < 2 ^ 63) (hb : b < 2 ^ 63) :
    Int64.ofNat a < Int64.ofNat b ↔ a < b := by
  rw [Int64.lt_iff_toInt_lt, Int64.toInt_ofNat_of_lt ha, Int64.toInt_ofNat_of_lt hb]
  omega

/-- A non-negative value has its top bit clear. -/
theorem toNat_lt_of_nonneg {x : Int64} (h : 0 ≤ x.toInt) : x.toBitVec.toNat < 2 ^ 63 := by
  have hx := BitVec.toInt_eq_toNat_bmod x.toBitVec
  have hlt := x.toBitVec.isLt
  rw [Int64.toInt_toBitVec] at hx
  simp only [Int.bmod_def] at hx
  omega

/-- A negative value has its top bit set. -/
theorem toNat_ge_of_neg {x : Int64} (h : x.toInt < 0) : 2 ^ 63 ≤ x.toBitVec.toNat := by
  have hx := BitVec.toInt_eq_toNat_bmod x.toBitVec
  have hlt := x.toBitVec.isLt
  rw [Int64.toInt_toBitVec] at hx
  simp only [Int.bmod_def] at hx
  omega

/-- Adding a count to a non-negative value does not wrap while the sum stays below `2 ^ 63`. -/
theorem toInt_add_ofNat {a : Int64} {n : Nat} (h0 : 0 ≤ a.toInt) (h : a.toInt + n < 2 ^ 63) :
    (a + Int64.ofNat n).toInt = a.toInt + n := by
  have hn : n < 2 ^ 63 := by omega
  rw [Int64.toInt_add, Int64.toInt_ofNat_of_lt hn, Int.bmod_def]
  split <;> omega

/-- A sum that stays in range does not wrap. -/
theorem toInt_add_of_range {a b : Int64} (h1 : -2 ^ 63 ≤ a.toInt + b.toInt) (h2 : a.toInt + b.toInt < 2 ^ 63) :
    (a + b).toInt = a.toInt + b.toInt := by
  rw [Int64.toInt_add, Int.bmod_def]
  split <;> omega

/-- A difference that stays in range does not wrap. -/
theorem toInt_sub_of_range {a b : Int64} (h1 : -2 ^ 63 ≤ a.toInt - b.toInt) (h2 : a.toInt - b.toInt < 2 ^ 63) :
    (a - b).toInt = a.toInt - b.toInt := by
  rw [Int64.toInt_sub, Int.bmod_def]
  split <;> omega

/-- `x as i32 as u32`: the low 32 bits. -/
theorem toNat_toUInt32_toInt32 (x : Int64) : x.toInt32.toUInt32.toNat = x.toBitVec.toNat % 2 ^ 32 := by
  rw [← UInt32.toNat_toBitVec, Int32.toBitVec_toUInt32, Int64.toBitVec_toInt32, BitVec.toNat_signExtend,
    BitVec.toNat_setWidth]
  simp

/-- `x as u32` for an `i64`: the low 32 bits. -/
theorem toNat_toUInt32_toUInt64 (x : Int64) : x.toUInt64.toUInt32.toNat = x.toBitVec.toNat % 2 ^ 32 := by
  rw [UInt64.toNat_toUInt32, ← UInt64.toNat_toBitVec, Int64.toBitVec_toUInt64]

/-- A non-negative value is its bit pattern. -/
theorem toInt_eq_toNat_of_nonneg {x : Int64} (h : 0 ≤ x.toInt) : x.toInt = x.toBitVec.toNat := by
  have hlt := toNat_lt_of_nonneg h
  rw [← Int64.toInt_toBitVec, BitVec.toInt_eq_toNat_cond]
  split
  · rfl
  · omega

end Bits
