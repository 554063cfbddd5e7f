import VfsOss.CLib.Text
import Mathlib.Data.Nat.Digits.Defs

/-!
# Decimal numbers in C

What `printf` writes for `%d` and `%ld`, and what `strtol`, `atol` and `atoi` read.
-/

namespace CLib

/-- The decimal digits of a number, most significant first. -/
def dec (n : Nat) : Bytes :=
  if n = 0 then [48] else (Nat.digits 10 n).reverse.map fun d => UInt8.ofNat (48 + d)

/-- The text of `%d` or `%ld`. -/
def fmtInt (n : Int) : Bytes := if n < 0 then 45 :: dec n.natAbs else dec n.natAbs

/-- `isspace` in the C locale. -/
def isSpace (b : UInt8) : Bool := b = 32 || (9 ≤ b && b ≤ 13)

/-- `isdigit`. -/
def isDigit (b : UInt8) : Bool := 48 ≤ b && b ≤ 57

/-- The number at the start of a text, zero when there is no digit. -/
def readDigits (s : Bytes) : Nat :=
  (s.takeWhile isDigit).foldl (fun n b => (b.toNat - 48) + 10 * n) 0

/-- A value forced into the range of a 64-bit `long`, as `strtol` does on overflow. -/
def clampLong (n : Int) : Int := max (-2 ^ 63) (min (2 ^ 63 - 1) n)

/-- `strtol(s, NULL, 10)`. -/
def strtol (s : Bytes) : Int :=
  clampLong <|
    match s.dropWhile isSpace with
    | 45 :: r => -(readDigits r : Int)
    | 43 :: r => readDigits r
    | r => readDigits r

/-- `atol`. -/
def atol (s : Bytes) : Int := strtol s

/-- `atoi`: the value of `strtol` cut down to a 32-bit `int`. -/
def atoi (s : Bytes) : Int := (strtol s).bmod (2 ^ 32)

/-- A `long` stored into a 32-bit `int`. -/
def toInt32 (n : Int) : Int := n.bmod (2 ^ 32)

/-- The result of 64-bit signed arithmetic. -/
def toInt64 (n : Int) : Int := n.bmod (2 ^ 64)

end CLib
