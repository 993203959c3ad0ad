import Fluvio.Protocol.Core
import Fluvio.Lib.Bits

/-!
The zigzag varints of `fluvio-protocol/src/core/varint.rs`, on `i64`.

`varint_decode` is a 64-bit zigzag decoder: seven bits per byte, low group first,
the top bit of a byte asking for another one. `variant_encode` and `variant_size`
compute the zigzag value as `(num << 1) ^ (num >> 31)` and loop while
`v & 0xffffff80 != 0`, shifting `v` arithmetically by seven. Both are the 32-bit
algorithm run on a 64-bit value, and this module models them as written:

* the loop is run for at most ten rounds (`variantEncodeLoop`). Nine shifts by
  seven bring any `i64` to `0` or `-1` (`shiftRight_seven_iterate`), and at `-1`
  the loop condition holds and the shift changes nothing
  (`variantEncodeLoop_minus_one`), so a loop that has not stopped after the
  rounds never stops: `none` is non-termination;
* `variantSize_eq` — `variant_size` counts exactly the bytes `variant_encode`
  writes, including agreeing on which values never finish;
* the decoder panics on an eleventh byte, which it would shift by 70 bits
  (`varintDecode_panics_on_long_input`);
* on the values of an `i32` the two are inverse, the decoder reading exactly the
  `variant_size` bytes written (`varint_roundTrip_size`), as the 32-bit algorithm is;
  one past them, `2 ^ 31` is written as one byte that reads back as `-1`
  (`varint_twoPow31_reads_minus_one`).
-/

namespace Fluvio.Protocol

open Cursor

/-! ### Decoding -/

/-- `(num >> 1) ^ -(num & 1)`, the zigzag decoding `varint_decode` ends with. -/
def unzigzag (num : Int64) : Int64 := (num >>> 1) ^^^ -(num &&& 1)

/-- The loop of `varint_decode`, with the value `num` and the `shift` so far. -/
def varintDecodeLoop (num : Int64) (shift : Nat) : List UInt8 → Result DecodeError (Int64 × Nat)
  | [] => .error (.io .unexpectedEof "varint decoding no more bytes left") []
  | b :: bs =>
    if 64 ≤ shift then .error (.panic "attempt to shift left with overflow") bs
    else
      let num := num ||| ((b &&& 0x7f).toUInt64.toInt64 <<< Int64.ofNat shift)
      if b &&& 0x80 = 0 then .ok (unzigzag num, (shift + 7) / 7) bs
      else varintDecodeLoop num (shift + 7) bs

/-- `varint_decode`: the value and the number of bytes read. -/
def varintDecode : Decode (Int64 × Nat) := varintDecodeLoop 0 0

/-- `DecoderVarInt for i64`: `decode_varint` keeps the value. -/
def decodeVarint : Decode Int64 := do
  let (value, _) ← varintDecode
  pure value

/-! ### Encoding -/

/-- `(num << 1) ^ (num >> 31)`, the value `variant_encode` and `variant_size` loop on. -/
def zigzag (num : Int64) : Int64 := (num <<< 1) ^^^ (num >>> 31)

/-- `v & 0xffffff80 != 0`, the loop condition of the encoder. -/
def MoreGroups (v : Int64) : Prop := v &&& 0xffffff80 ≠ 0

instance : DecidablePred MoreGroups := fun _ => inferInstanceAs (Decidable (_ ≠ _))

/-- The encoding loop of `variant_encode` for at most `fuel` more rounds: while
there are more groups push `(v & 0x7f) | 0x80` and shift, then push `v as u8`. -/
def variantEncodeLoop : Nat → Int64 → Option (List UInt8)
  | 0, v => if MoreGroups v then none else some [v.toUInt64.toUInt8]
  | fuel + 1, v =>
    if MoreGroups v then
      (variantEncodeLoop fuel (v >>> 7)).map (((v &&& 0x7f) ||| 0x80).toUInt64.toUInt8 :: ·)
    else some [v.toUInt64.toUInt8]

/-- `variant_encode` into a `Vec<u8>`. -/
def variantEncode (num : Int64) : Option (List UInt8) := variantEncodeLoop 10 (zigzag num)

/-- The counting loop of `variant_size`, with `bytes` counted so far. -/
def variantSizeLoop : Nat → Int64 → Nat → Option Nat
  | 0, v, bytes => if MoreGroups v then none else some bytes
  | fuel + 1, v, bytes => if MoreGroups v then variantSizeLoop fuel (v >>> 7) (bytes + 1) else some bytes

/-- `variant_size`. -/
def variantSize (num : Int64) : Option Nat := variantSizeLoop 10 (zigzag num) 1

example : variantEncode 8191 = some [0xfe, 0x7f] := by decide
example : variantEncode (-134217729) = some [0x81, 0x80, 0x80, 0x80, 0x01] := by decide

/-! ### The loop bound -/

/-- `-1` is a fixed point of the loop that never leaves it. -/
theorem variantEncodeLoop_minus_one (fuel : Nat) : variantEncodeLoop fuel (-1) = none := by
  induction fuel with
  | zero => decide
  | succ fuel ih =>
    have hmore : MoreGroups (-1) := by decide
    have hshift : (-1 : Int64) >>> 7 = -1 := by decide
    simp [variantEncodeLoop, hmore, hshift, ih]

/-- Nine arithmetic shifts by seven leave `0` or `-1`. -/
theorem shiftRight_seven_iterate (v : Int64) :
    (fun x : Int64 => x >>> 7)^[9] v = 0 ∨ (fun x : Int64 => x >>> 7)^[9] v = -1 := by
  have h7 : ((7 : Int64).toBitVec.smod 64).toNat = 7 := by decide
  have hiter : ∀ k, ((fun x : Int64 => x >>> 7)^[k] v).toInt = v.toInt / 128 ^ k := by
    intro k
    induction k with
    | zero => simp
    | succ k ih =>
      rw [Function.iterate_succ_apply', Bits.toInt_shiftRight_of_smod _ 7 h7, ih,
        Int.ediv_ediv_of_nonneg (by positivity), pow_succ]
      rfl
  have hlo := Int64.le_toInt v
  have hhi := Int64.toInt_lt v
  have h9 := hiter 9
  rcases Int.lt_or_le v.toInt 0 with hneg | hnonneg
  · right
    apply Int64.toInt_inj.mp
    rw [h9]
    have : v.toInt / 128 ^ 9 = -1 := by
      have hb : (0 : Int) < 128 ^ 9 := by positivity
      refine ((Int.ediv_emod_unique (r := v.toInt + 128 ^ 9) hb).2 ⟨by ring, ?_, ?_⟩).1 <;>
        norm_num at hlo hhi hneg ⊢ <;> omega
    rw [this]
    decide
  · left
    apply Int64.toInt_inj.mp
    rw [h9, Int.ediv_eq_zero_of_lt hnonneg (by norm_num; omega)]
    decide

/-! ### Size agreement -/

theorem variantSizeLoop_eq (fuel : Nat) (v : Int64) (k : Nat) :
    variantSizeLoop fuel v (k + 1) = (variantEncodeLoop fuel v).map (k + ·.length) := by
  induction fuel generalizing v k with
  | zero => by_cases h : MoreGroups v <;> simp [variantSizeLoop, variantEncodeLoop, h]
  | succ fuel ih =>
    by_cases h : MoreGroups v
    · simp only [variantSizeLoop, variantEncodeLoop, h, if_true]
      rw [ih, Option.map_map]
      congr 1
      funext bs
      simp [Nat.add_comm, Nat.add_left_comm]
    · simp [variantSizeLoop, variantEncodeLoop, h]

/-- `variant_size` is the length of what `variant_encode` writes. -/
theorem variantSize_eq (num : Int64) : variantSize num = (variantEncode num).map List.length := by
  rw [variantSize, variantSizeLoop_eq, variantEncode]
  simp

/-! ### Round trip on `i32` values -/

theorem moreGroups_iff {v : Int64} (hv : v.toBitVec.toNat < 2 ^ 32) :
    MoreGroups v ↔ 128 ≤ v.toBitVec.toNat := by
  have hc : (0xffffff80 : Int64).toBitVec.toNat = (2 ^ 25 - 1) * 2 ^ 7 := rfl
  have hdiv : v.toBitVec.toNat / 2 ^ 7 < 2 ^ 25 := by omega
  rw [MoreGroups, ne_eq, ← Int64.toBitVec_inj, Int64.toBitVec_and, ← BitVec.toNat_inj,
    BitVec.toNat_and, hc, Bits.land_mask, Nat.mod_eq_of_lt hdiv]
  simp only [Int64.toBitVec_zero, BitVec.toNat_zero]
  omega

/-- The byte pushed for a group with more to follow. -/
theorem toNat_groupByte (v : Int64) :
    (((v &&& 0x7f) ||| 0x80).toUInt64.toUInt8).toNat = v.toBitVec.toNat % 128 + 128 := by
  have h7f : (0x7f : Int64).toBitVec.toNat = 2 ^ 7 - 1 := rfl
  have h80 : (0x80 : Int64).toBitVec.toNat = 2 ^ 7 * 1 := rfl
  have hlow : v.toBitVec.toNat % 2 ^ 7 < 2 ^ 7 := Nat.mod_lt _ (by norm_num)
  rw [UInt64.toNat_toUInt8, ← UInt64.toNat_toBitVec, Int64.toBitVec_toUInt64, Int64.toBitVec_or,
    Int64.toBitVec_and, BitVec.toNat_or, BitVec.toNat_and, h7f, h80, Nat.and_two_pow_sub_one_eq_mod,
    Nat.or_comm, ← Nat.two_pow_add_eq_or_of_lt hlow]
  omega

/-- The last byte, `v as u8`. -/
theorem toNat_lastByte {v : Int64} (h : v.toBitVec.toNat < 128) :
    v.toUInt64.toUInt8.toNat = v.toBitVec.toNat := by
  rw [UInt64.toNat_toUInt8, ← UInt64.toNat_toBitVec, Int64.toBitVec_toUInt64]
  omega

/-- The seven bits a byte contributes. -/
theorem toNat_group (b : UInt8) : (b &&& 0x7f).toUInt64.toNat = b.toNat % 128 := by
  rw [UInt8.toNat_toUInt64, UInt8.toNat_and]
  exact Nat.and_two_pow_sub_one_eq_mod b.toNat 7

theorem byte_and_high_eq_zero {b : UInt8} : b &&& 0x80 = 0 ↔ b.toNat < 128 := by
  have hb := b.toNat_lt
  have h80 : (0x80 : UInt8).toNat = (2 ^ 1 - 1) * 2 ^ 7 := rfl
  rw [← UInt8.toNat_inj, UInt8.toNat_and, h80, Bits.land_mask]
  simp only [UInt8.toNat_zero]
  omega

theorem variantEncodeLoop_last {fuel : Nat} {v : Int64} (h : ¬ MoreGroups v) :
    variantEncodeLoop fuel v = some [v.toUInt64.toUInt8] := by
  cases fuel <;> simp [variantEncodeLoop, h]

theorem variantEncodeLoop_cont {fuel : Nat} {v : Int64} (h : MoreGroups v) :
    variantEncodeLoop (fuel + 1) v =
      (variantEncodeLoop fuel (v >>> 7)).map (((v &&& 0x7f) ||| 0x80).toUInt64.toUInt8 :: ·) := by
  simp [variantEncodeLoop, h]

theorem varintDecodeLoop_last {num : Int64} {shift : Nat} {b : UInt8} {rest : List UInt8}
    (hshift : shift < 64) (hb : b.toNat < 128) :
    varintDecodeLoop num shift (b :: rest) =
      .ok (unzigzag (num ||| ((b &&& 0x7f).toUInt64.toInt64 <<< Int64.ofNat shift)), (shift + 7) / 7)
        rest := by
  simp [varintDecodeLoop, Nat.not_le.mpr hshift, byte_and_high_eq_zero.mpr hb]

theorem varintDecodeLoop_cont {num : Int64} {shift : Nat} {b : UInt8} {rest : List UInt8}
    (hshift : shift < 64) (hb : 128 ≤ b.toNat) :
    varintDecodeLoop num shift (b :: rest) =
      varintDecodeLoop (num ||| ((b &&& 0x7f).toUInt64.toInt64 <<< Int64.ofNat shift)) (shift + 7)
        rest := by
  have : ¬ b &&& 0x80 = 0 := fun h => absurd (byte_and_high_eq_zero.mp h) (by omega)
  simp [varintDecodeLoop, Nat.not_le.mpr hshift, this]

/-! ### The decoder's shift -/

/-- With `k` groups read, `bs.length` more continuation bytes bring the shift to 70 by the
eleventh byte, which panics. Induction on the continuation bytes, the shift growing by seven. -/
theorem varintDecodeLoop_panics (b : UInt8) (rest : List UInt8) :
    ∀ (bs : List UInt8) (num : Int64) (k : Nat), bs.length + k = 10 → (∀ x ∈ bs, 128 ≤ x.toNat) →
      varintDecodeLoop num (7 * k) (bs ++ b :: rest) =
        .error (.panic "attempt to shift left with overflow") rest
  | [], _, k, hlen, _ => by
    have hk : k = 10 := by simpa using hlen
    simp [varintDecodeLoop, hk]
  | x :: xs, num, k, hlen, hcont => by
    simp only [List.length_cons] at hlen
    rw [List.cons_append, varintDecodeLoop_cont (by omega) (hcont x List.mem_cons_self),
      show 7 * k + 7 = 7 * (k + 1) by ring]
    exact varintDecodeLoop_panics b rest xs _ (k + 1) (by omega)
      (fun y hy => hcont y (List.mem_cons_of_mem x hy))

/-- After ten continuation bytes the decoder shifts the next byte by 70 bits, which panics. -/
theorem varintDecode_panics_on_long_input {bs : List UInt8} (hlen : bs.length = 10)
    (hcont : ∀ x ∈ bs, 128 ≤ x.toNat) (b : UInt8) (rest : List UInt8) :
    varintDecode (bs ++ b :: rest) = .error (.panic "attempt to shift left with overflow") rest :=
  varintDecodeLoop_panics b rest bs 0 0 (by omega) hcont

example : varintDecode (List.replicate 10 0x80 ++ [0]) =
    .error (.panic "attempt to shift left with overflow") [] := by decide

/-- The last group: one byte, read back at `shift`. -/
theorem varint_roundTrip_last (fuel : Nat) {v num : Int64} {shift : Nat} (rest : List UInt8)
    (hshift : shift < 32) (hv : v.toBitVec.toNat < 128) (hnum : num.toBitVec.toNat < 2 ^ shift) :
    ∃ bs acc k, variantEncodeLoop fuel v = some bs ∧
      acc.toBitVec.toNat = num.toBitVec.toNat + v.toBitVec.toNat * 2 ^ shift ∧
      varintDecodeLoop num shift (bs ++ rest) = .ok (unzigzag acc, k) rest ∧
      k = shift / 7 + bs.length := by
  have hmore : ¬ MoreGroups v := by
    rw [moreGroups_iff (by omega)]
    omega
  have hb := toNat_lastByte hv
  have hbound : (v.toUInt64.toUInt8 &&& 0x7f).toUInt64.toNat * 2 ^ shift < 2 ^ 64 := by
    have hpow : 2 ^ shift ≤ 2 ^ 31 := Nat.pow_le_pow_right (by norm_num) (by omega)
    rw [toNat_group, hb, Nat.mod_eq_of_lt hv]
    calc v.toBitVec.toNat * 2 ^ shift ≤ 128 * 2 ^ 31 := Nat.mul_le_mul (by omega) hpow
      _ < 2 ^ 64 := by norm_num
  refine ⟨[v.toUInt64.toUInt8], _, (shift + 7) / 7, variantEncodeLoop_last hmore, ?_,
    varintDecodeLoop_last (by omega) (by omega), by simp⟩
  rw [Bits.toNat_or_shiftLeft _ _ (by omega) hbound hnum, toNat_group, hb, Nat.mod_eq_of_lt hv]

/-- The encoding loop and the decoding loop agree on a value below `2 ^ 32`: the bytes
written read back as that value placed above the `shift` bits read so far. -/
theorem varint_roundTrip_loop (rest : List UInt8) :
    ∀ (fuel : Nat) (v num : Int64) (shift : Nat),
      v.toBitVec.toNat * 2 ^ shift < 2 ^ 32 → shift < 32 → v.toBitVec.toNat < 128 ^ (fuel + 1) →
      num.toBitVec.toNat < 2 ^ shift →
      ∃ bs acc k, variantEncodeLoop fuel v = some bs ∧
        acc.toBitVec.toNat = num.toBitVec.toNat + v.toBitVec.toNat * 2 ^ shift ∧
        varintDecodeLoop num shift (bs ++ rest) = .ok (unzigzag acc, k) rest ∧
        k = shift / 7 + bs.length := by
  intro fuel
  -- one group per round: the induction follows the encoder's fuel
  induction fuel with
  | zero =>
    intro v num shift _ hshift hfuel hnum
    exact varint_roundTrip_last 0 rest hshift (by simpa using hfuel) hnum
  | succ fuel ih =>
    intro v num shift hv hshift hfuel hnum
    have hpow : 0 < 2 ^ shift := by positivity
    have hv32 : v.toBitVec.toNat < 2 ^ 32 := lt_of_le_of_lt (Nat.le_mul_of_pos_right _ hpow) hv
    by_cases hmore : MoreGroups v
    case neg =>
      have hv128 : v.toBitVec.toNat < 128 := by
        rw [moreGroups_iff hv32] at hmore
        omega
      exact varint_roundTrip_last (fuel + 1) rest hshift hv128 hnum
    case pos =>
      have h128 : 128 ≤ v.toBitVec.toNat := (moreGroups_iff hv32).mp hmore
      set byte := ((v &&& 0x7f) ||| 0x80).toUInt64.toUInt8 with hbyte
      have hbyteNat : byte.toNat = v.toBitVec.toNat % 128 + 128 := toNat_groupByte v
      have hlow : (byte &&& 0x7f).toUInt64.toNat = v.toBitVec.toNat % 128 := by
        rw [toNat_group, hbyteNat]
        omega
      have hmod : v.toBitVec.toNat % 128 < 128 := Nat.mod_lt _ (by norm_num)
      -- the value had a second group, so the shift stays below 32 - 7
      have hshift' : shift + 7 < 32 := by
        have : 2 ^ (shift + 7) < 2 ^ 32 := by
          rw [pow_add]
          nlinarith
        exact (Nat.pow_lt_pow_iff_right (by norm_num)).mp this
      have hnum1 := Bits.toNat_or_shiftLeft num (byte &&& 0x7f).toUInt64 (by omega)
        (by rw [hlow]; nlinarith) hnum
      rw [hlow] at hnum1
      have hnext : (v >>> 7).toBitVec.toNat = v.toBitVec.toNat / 128 :=
        @Bits.toNat_shiftRight_of_lt v (by omega) 7 7 (by decide)
      have hv' : v.toBitVec.toNat / 128 * 2 ^ (shift + 7) < 2 ^ 32 :=
        calc v.toBitVec.toNat / 128 * 2 ^ (shift + 7)
            = v.toBitVec.toNat / 128 * 128 * 2 ^ shift := by ring
          _ ≤ v.toBitVec.toNat * 2 ^ shift := Nat.mul_le_mul_right _ (Nat.div_mul_le_self _ _)
          _ < 2 ^ 32 := hv
      obtain ⟨bs, acc, k, henc, hacc, hdec, hk⟩ := ih (v >>> 7)
        (num ||| ((byte &&& 0x7f).toUInt64.toInt64 <<< Int64.ofNat shift)) (shift + 7)
        (by rw [hnext]; exact hv') hshift'
        (by rw [hnext]; rw [pow_succ] at hfuel; omega)
        (by rw [hnum1, pow_add]; nlinarith)
      refine ⟨byte :: bs, acc, k, by rw [variantEncodeLoop_cont hmore, henc]; rfl, ?_, ?_, ?_⟩
      · rw [hacc, hnum1, hnext]
        conv_rhs => rw [← Nat.div_add_mod v.toBitVec.toNat 128]
        ring
      · rw [List.cons_append, varintDecodeLoop_cont (by omega) (by omega), hdec]
      · rw [hk, List.length_cons]
        omega

theorem toInt_zigzag_of_nonneg {n : Int64} (h1 : 0 ≤ n.toInt) (h2 : n.toInt < 2 ^ 31) :
    (zigzag n).toInt = 2 * n.toInt := by
  have hs : n >>> 31 = 0 := by
    apply Int64.toInt_inj.mp
    rw [Bits.toInt_shiftRight_of_smod n 31 (by decide : ((31 : Int64).toBitVec.smod 64).toNat = 31)]
    simp
    omega
  rw [zigzag, hs, Int64.xor_zero, Bits.toInt_shiftLeft_one (by omega) (by omega)]

theorem toInt_zigzag_of_neg {n : Int64} (h1 : -2 ^ 31 ≤ n.toInt) (h2 : n.toInt < 0) :
    (zigzag n).toInt = 2 * (-n.toInt - 1) + 1 := by
  have hs : n >>> 31 = -1 := by
    apply Int64.toInt_inj.mp
    rw [Bits.toInt_shiftRight_of_smod n 31 (by decide : ((31 : Int64).toBitVec.smod 64).toNat = 31)]
    simp
    omega
  rw [zigzag, hs, Int64.xor_neg_one, Int64.toInt_not, Bits.toInt_shiftLeft_one (by omega) (by omega)]
  simp only [Int.bmod_def]
  omega

theorem toInt_unzigzag_of_even {z : Int64} {m : Int} (hz : z.toInt = 2 * m) :
    (unzigzag z).toInt = m := by
  have hlow : z &&& 1 = 0 := by
    apply Int64.toInt_inj.mp
    rw [Bits.toInt_and_one, hz]
    simp
  rw [unzigzag, hlow, Int64.neg_zero, Int64.xor_zero,
    Bits.toInt_shiftRight_of_smod z 1 (by decide : ((1 : Int64).toBitVec.smod 64).toNat = 1), hz]
  omega

theorem toInt_unzigzag_of_odd {z : Int64} {m : Int} (hz : z.toInt = 2 * m + 1) :
    (unzigzag z).toInt = -m - 1 := by
  have hlow : -(z &&& 1) = -1 := by
    congr 1
    apply Int64.toInt_inj.mp
    rw [Bits.toInt_and_one, hz]
    simp
  have hlo := Int64.le_toInt z
  have hhi := Int64.toInt_lt z
  rw [unzigzag, hlow, Int64.xor_neg_one, Int64.toInt_not,
    Bits.toInt_shiftRight_of_smod z 1 (by decide : ((1 : Int64).toBitVec.smod 64).toNat = 1), hz]
  simp only [Int.bmod_def]
  omega

/-- On the values of an `i32`, zigzag decoding undoes zigzag encoding. -/
theorem unzigzag_zigzag {n : Int64} (h1 : -2 ^ 31 ≤ n.toInt) (h2 : n.toInt < 2 ^ 31) :
    unzigzag (zigzag n) = n := by
  apply Int64.toInt_inj.mp
  rcases Int.lt_or_le n.toInt 0 with hneg | hnonneg
  · rw [toInt_unzigzag_of_odd (toInt_zigzag_of_neg h1 hneg)]
    omega
  · exact toInt_unzigzag_of_even (toInt_zigzag_of_nonneg hnonneg h2)

theorem toNat_zigzag_lt {n : Int64} (h1 : -2 ^ 31 ≤ n.toInt) (h2 : n.toInt < 2 ^ 31) :
    (zigzag n).toBitVec.toNat < 2 ^ 32 := by
  have hrange : 0 ≤ (zigzag n).toInt ∧ (zigzag n).toInt < 2 ^ 32 := by
    rcases Int.lt_or_le n.toInt 0 with hneg | hnonneg
    · rw [toInt_zigzag_of_neg h1 hneg]
      omega
    · rw [toInt_zigzag_of_nonneg hnonneg h2]
      omega
  have hx := BitVec.toInt_eq_toNat_bmod (zigzag n).toBitVec
  have hlt := (zigzag n).toBitVec.isLt
  rw [Int64.toInt_toBitVec] at hx
  simp only [Int.bmod_def] at hx
  omega

/-- The values the 32-bit algorithm carries: those of an `i32`. -/
def VarintRange (n : Int64) : Prop := -2 ^ 31 ≤ n.toInt ∧ n.toInt < 2 ^ 31

instance : DecidablePred VarintRange := fun _ => inferInstanceAs (Decidable (_ ∧ _))

theorem varintRange_ofNat {n : Nat} (h : n < 2 ^ 31) : VarintRange (Int64.ofNat n) := by
  have : (Int64.ofNat n).toInt = n := Int64.toInt_ofNat_of_lt (by omega)
  constructor <;> omega

/-- **Varint round trip on `i32` values.** `variant_encode` writes `variant_size` bytes, and
`varint_decode` reads exactly them back as the value, with their count. -/
theorem varint_roundTrip_size {n : Int64} (hn : VarintRange n) (rest : List UInt8) :
    ∃ bs, variantEncode n = some bs ∧ variantSize n = some bs.length ∧
      varintDecode (bs ++ rest) = .ok (n, bs.length) rest := by
  obtain ⟨h1, h2⟩ := hn
  have hv := toNat_zigzag_lt h1 h2
  obtain ⟨bs, acc, k, henc, hacc, hdec, hk⟩ :=
    varint_roundTrip_loop rest 10 (zigzag n) 0 0 (by simpa using hv) (by norm_num)
      (by norm_num; omega) (by simp)
  have hacc' : acc = zigzag n := by
    apply Int64.toBitVec_inj.mp
    apply BitVec.eq_of_toNat_eq
    simpa using hacc
  refine ⟨bs, henc, by rw [variantSize_eq, variantEncode, henc]; rfl, ?_⟩
  rw [varintDecode, hdec, hacc', unzigzag_zigzag h1 h2, hk, Nat.zero_div, Nat.zero_add]

/-- The encoder's zigzag value of `2 ^ 31`, one past the `i32` values, is `2 ^ 32 + 1`, which
has no bit under the 32-bit mask: it is written as the one byte `0x01`, which reads back as
`-1`. -/
theorem varint_twoPow31_reads_minus_one :
    variantEncode (2 ^ 31) = some [0x01] ∧ variantSize (2 ^ 31) = some 1 ∧
      varintDecode [0x01] = .ok (-1, 1) [] := by
  decide

/-- `variant_encode` followed by `varint_decode` gives back any value of an `i32`,
reading exactly the bytes written. -/
theorem varintDecode_variantEncode {n : Int64} (hn : VarintRange n) (rest : List UInt8) :
    ∃ bs k, variantEncode n = some bs ∧ varintDecode (bs ++ rest) = .ok (n, k) rest := by
  obtain ⟨bs, henc, -, hdec⟩ := varint_roundTrip_size hn rest
  exact ⟨bs, bs.length, henc, hdec⟩

theorem decodeVarint_variantEncode {n : Int64} (hn : VarintRange n) (bound : Nat) :
    ∃ bs, variantEncode n = some bs ∧ ReadsExactly bound decodeVarint bs n := by
  obtain ⟨bs, k, henc, -⟩ := varintDecode_variantEncode hn []
  refine ⟨bs, henc, fun rest _ => ?_⟩
  obtain ⟨bs', k', henc', hdec⟩ := varintDecode_variantEncode hn rest
  obtain rfl : bs = bs' := Option.some.inj (henc.symm.trans henc')
  simp [decodeVarint, hdec]

/-! ### Termination on non-negative values -/

theorem not_moreGroups_of_lt {v : Int64} (h : v.toBitVec.toNat < 128) : ¬ MoreGroups v := by
  have hc : (0xffffff80 : Int64).toBitVec.toNat = (2 ^ 25 - 1) * 2 ^ 7 := rfl
  rw [MoreGroups, not_not, ← Int64.toBitVec_inj, ← BitVec.toNat_inj, Int64.toBitVec_and,
    BitVec.toNat_and, hc, Bits.land_mask, Nat.div_eq_of_lt (by omega)]
  rfl

/-- The loop stops within its rounds on a non-negative value that has no more groups than rounds. -/
theorem variantEncodeLoop_isSome :
    ∀ (fuel : Nat) (v : Int64), v.toBitVec.toNat < 2 ^ 63 → v.toBitVec.toNat < 128 ^ (fuel + 1) →
      (variantEncodeLoop fuel v).isSome
  | fuel, v, hv, hfuel => by
    by_cases hmore : MoreGroups v
    case neg => rw [variantEncodeLoop_last hmore]; rfl
    case pos =>
      have h128 : 128 ≤ v.toBitVec.toNat := by
        by_contra hlt
        exact not_moreGroups_of_lt (by omega) hmore
      cases fuel with
      | zero => simp at hfuel; omega
      | succ fuel =>
        have hnext : (v >>> 7).toBitVec.toNat = v.toBitVec.toNat / 128 :=
          @Bits.toNat_shiftRight_of_lt v hv 7 7 (by decide)
        rw [variantEncodeLoop_cont hmore, Option.isSome_map]
        apply variantEncodeLoop_isSome fuel (v >>> 7) (by omega)
        rw [hnext]
        rw [pow_succ] at hfuel
        omega

theorem toNat_zigzag_lt_of_nonneg {n : Int64} (h0 : 0 ≤ n.toInt) (h1 : n.toInt < 2 ^ 62) :
    (zigzag n).toBitVec.toNat < 2 ^ 63 := by
  have hshl : 0 ≤ (n <<< 1).toInt := by
    rw [Bits.toInt_shiftLeft_one (by omega) h1]
    omega
  have hshr : 0 ≤ (n >>> 31).toInt := by
    rw [Bits.toInt_shiftRight_of_smod n 31 (by decide : ((31 : Int64).toBitVec.smod 64).toNat = 31)]
    exact Int.ediv_nonneg h0 (by positivity)
  rw [zigzag, Int64.toBitVec_xor, BitVec.toNat_xor]
  exact Nat.xor_lt_two_pow (Bits.toNat_lt_of_nonneg hshl) (Bits.toNat_lt_of_nonneg hshr)

/-- `variant_encode` terminates on every value in `[0, 2 ^ 62)`; its lengths are such values. -/
theorem variantEncode_isSome {n : Int64} (h0 : 0 ≤ n.toInt) (h1 : n.toInt < 2 ^ 62) :
    (variantEncode n).isSome :=
  variantEncodeLoop_isSome 10 _ (toNat_zigzag_lt_of_nonneg h0 h1)
    (lt_of_lt_of_le (toNat_zigzag_lt_of_nonneg h0 h1) (by norm_num))

/-! ### Lengths -/

theorem length_variantEncodeLoop :
    ∀ (fuel : Nat) (v : Int64) {bs : List UInt8}, variantEncodeLoop fuel v = some bs → bs.length ≤ fuel + 1
  | 0, v, bs, h => by
    by_cases hm : MoreGroups v
    · simp [variantEncodeLoop, hm] at h
    · rw [variantEncodeLoop_last hm] at h
      cases h
      simp
  | fuel + 1, v, bs, h => by
    by_cases hm : MoreGroups v
    · rw [variantEncodeLoop_cont hm] at h
      obtain ⟨bs', h', rfl⟩ := Option.map_eq_some_iff.mp h
      have := length_variantEncodeLoop fuel (v >>> 7) h'
      simp
      omega
    · rw [variantEncodeLoop_last hm] at h
      cases h
      simp

theorem length_variantEncode {n : Int64} {bs : List UInt8} (h : variantEncode n = some bs) :
    bs.length ≤ 11 :=
  length_variantEncodeLoop 10 _ h

theorem variantEncodeLoop_ne_nil :
    ∀ (fuel : Nat) (v : Int64) {bs : List UInt8}, variantEncodeLoop fuel v = some bs → bs ≠ []
  | 0, v, bs, h => by
    by_cases hm : MoreGroups v
    · simp [variantEncodeLoop, hm] at h
    · rw [variantEncodeLoop_last hm] at h
      cases h
      simp
  | fuel + 1, v, bs, h => by
    by_cases hm : MoreGroups v
    · rw [variantEncodeLoop_cont hm] at h
      obtain ⟨bs', -, rfl⟩ := Option.map_eq_some_iff.mp h
      simp
    · rw [variantEncodeLoop_last hm] at h
      cases h
      simp

end Fluvio.Protocol
