import Mathlib.Logic.Function.Iterate
import Mathlib.Data.Nat.Notation

/-!
# CRC-32

The reflected checksum of `zlib.crc32`, one bit at a time over natural numbers.
-/
namespace Crc32

def shift (c : ℕ) : ℕ := if c % 2 = 1 then (c / 2) ^^^ 0xEDB88320 else c / 2

def step (c : ℕ) (byte : UInt8) : ℕ := shift^[8] (c ^^^ byte.toNat)

def checksum (bytes : List UInt8) : ℕ := bytes.foldl step 0xFFFFFFFF ^^^ 0xFFFFFFFF

/-- The check value of the catalogue. -/
example : checksum [0x31, 0x32, 0x33, 0x34, 0x35, 0x36, 0x37, 0x38, 0x39] = 0xCBF43926 := by
  decide +kernel

end Crc32
