import Chen.Python.Text
import Mathlib.Data.UInt

/-!
# `hashlib`

The digests are arbitrary functions of the bytes; a result that needs more says so.
-/

namespace Chen

/-- The digest functions the code calls. -/
class Hashlib where
  /-- `hashlib.blake2b(data, digest_size=n, key=key).digest()`. -/
  blake2b (key data : List UInt8) (digestSize : ℕ) : List UInt8
  /-- `hashlib.sha256(data).digest()`. -/
  sha256 (data : List UInt8) : List UInt8

/-- Digests of zeros, of the right lengths. -/
@[reducible] def Hashlib.zeros : Hashlib where
  blake2b _ _ digestSize := List.replicate digestSize 0
  sha256 _ := List.replicate 32 0

/-- Digests that repeat the sum of the bytes. -/
@[reducible] def Hashlib.checksum : Hashlib where
  blake2b _ data digestSize := List.replicate digestSize data.sum
  sha256 data := List.replicate 32 data.sum

/-- `int.from_bytes(bytes, "little")`. -/
def intFromLittle : List UInt8 → ℕ
  | [] => 0
  | b :: bs => b.toNat + 256 * intFromLittle bs

/-- `n.to_bytes(8, "little")`, for `n` below `2 ^ 64`. -/
def toLittle8 (n : ℕ) : List UInt8 :=
  (List.range 8).map fun i => UInt8.ofNat (n / 256 ^ i)

end Chen
