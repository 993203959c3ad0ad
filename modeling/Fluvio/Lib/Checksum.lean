import Mathlib.Data.List.Basic

/-!
The CRC-32C checksum (Castagnoli polynomial, reflected, as in iSCSI): one bit at a
time, no table. Codecs that write a checksum but never check it take the
checksum as a parameter; this is the function to run them with.
-/

namespace Checksum

/-- The reflected Castagnoli polynomial. -/
def castagnoliPoly : UInt32 := 0x82F63B78

/-- Shift one bit out of the register, folding in the polynomial when it is set. -/
def crcBit (c : UInt32) : UInt32 := if c &&& 1 = 1 then (c >>> 1) ^^^ castagnoliPoly else c >>> 1

/-- Feed one byte, low bit first. -/
def crcByte (c : UInt32) (b : UInt8) : UInt32 := Nat.repeat crcBit 8 (c ^^^ b.toUInt32)

/-- CRC-32C: register preset to all ones, result inverted. -/
def crc32c (bs : List UInt8) : UInt32 := ~~~(bs.foldl crcByte 0xFFFFFFFF)

/-- The check value of the standard: the checksum of the ASCII digits `1` to `9`. -/
example : crc32c [0x31, 0x32, 0x33, 0x34, 0x35, 0x36, 0x37, 0x38, 0x39] = 0xE3069283 := by
  decide +kernel

end Checksum
