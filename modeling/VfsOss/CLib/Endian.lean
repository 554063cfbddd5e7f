import Mathlib.Algebra.Group.Nat.Defs
import VfsOss.CLib.Text

/-!
# Numbers in network byte order

What `htonl` and `memcpy` put into memory, and what `memcpy` and `ntohl` read from it.
-/

namespace CLib

/-- The low 32 bits of a number, highest byte first. -/
def be32 (n : Nat) : Bytes :=
  [.ofNat (n / 2 ^ 24), .ofNat (n / 2 ^ 16), .ofNat (n / 2 ^ 8), .ofNat n]

/-- The number at the start of a block. -/
def ofBe32 (mem : Bytes) : Nat := (mem.take 4).foldl (fun n b => n * 256 + b.toNat) 0

@[simp] theorem length_be32 (n : Nat) : (be32 n).length = 4 := rfl

/-- What is written is read back, whatever comes behind it. -/
theorem ofBe32_be32 (n : Nat) (rest : Bytes) : ofBe32 (be32 n ++ rest) = n % 2 ^ 32 := by
  have htake : (be32 n ++ rest).take 4 = be32 n := rfl
  rw [ofBe32, htake]
  simp only [be32, List.foldl_cons, List.foldl_nil, UInt8.toNat_ofNat', Nat.reducePow]
  omega

end CLib
