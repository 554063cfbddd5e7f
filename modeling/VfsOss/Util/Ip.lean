import VfsOss.CLib.Numbers
import VfsOss.Conf.Store

/-!
# Addresses as texts

`str2ip` and `ip2str` of `util_ip.c` on a little-endian machine, and the addresses that `inet_aton` reads.
-/

namespace VfsOss

open CLib

/-- `INADDR_NONE`. -/
def inaddrNone : Nat := 2 ^ 32 - 1

/-- `htonl`. -/
def htonl (x : Nat) : Nat :=
  x % 2 ^ 8 * 2 ^ 24 + x / 2 ^ 8 % 2 ^ 8 * 2 ^ 16 + x / 2 ^ 16 % 2 ^ 8 * 2 ^ 8 + x / 2 ^ 24 % 2 ^ 8

/-- `isdigit(str[0])`; behind a text stands a NUL. -/
def startsDigit (str : Bytes) : Bool := str.head?.any isDigit

/-- `str2ip`. The values of `strtoul` are cut down to 32 bits where they are stored. -/
def str2ip (str : Bytes) : Nat :=
  if !startsDigit str then inaddrNone
  else
    let (value, str) := strtoul str
    let addr := value % 2 ^ 32
    if str.head? ≠ some 46 then
      let temp := addr / 2 ^ 24
      if temp = 0 ∨ temp ≥ 224 then inaddrNone else htonl addr
    else if !startsDigit str.tail then inaddrNone
    else if addr = 0 ∨ addr ≥ 224 then inaddrNone
    else
      let (value, str) := strtoul str.tail
      let temp := value % 2 ^ 32
      if str.head? ≠ some 46 then
        if temp ≥ 2 ^ 24 then inaddrNone else (addr + htonl temp) % 2 ^ 32
      else if !startsDigit str.tail then inaddrNone
      else if temp ≥ 256 then inaddrNone
      else
        let addr := (addr + temp * 2 ^ 8) % 2 ^ 32
        let (value, str) := strtoul str.tail
        let temp := value % 2 ^ 32
        if str.head? ≠ some 46 then
          if temp ≥ 2 ^ 16 then inaddrNone else (addr + htonl temp) % 2 ^ 32
        else if !startsDigit str.tail then inaddrNone
        else
          -- the third of four numbers is not compared with anything
          let addr := (addr + temp * 2 ^ 16) % 2 ^ 32
          let (value, _) := strtoul str.tail
          let temp := value % 2 ^ 32
          if temp ≥ 256 then inaddrNone else (addr + temp * 2 ^ 24) % 2 ^ 32

/-- What `ip2str` writes for one octet. -/
def octetText (c : Nat) : Bytes :=
  if c ≥ 100 then [UInt8.ofNat (48 + c / 100), UInt8.ofNat (48 + c / 10 % 10), UInt8.ofNat (48 + c % 10)]
  else if c ≥ 10 then [UInt8.ofNat (48 + c / 10), UInt8.ofNat (48 + c % 10)]
  else [UInt8.ofNat (48 + c)]

/-- `ip2str`: what is written at `str`. No NUL is written behind it. -/
def ip2str (ip : Nat) : Bytes :=
  octetText (ip % 256) ++ 46 :: (octetText (ip / 2 ^ 8 % 256) ++ 46 ::
    (octetText (ip / 2 ^ 16 % 256) ++ 46 :: octetText (ip / 2 ^ 24 % 256)))

/-! ## What is expected of them -/

/-- The whole of a text as an unsigned number. -/
def wholeNumber (s : Bytes) : Option Nat :=
  if startsDigit s && numeral s = s then some (readNumber s) else none

/-- The whole of a text as unsigned numbers with dots between them. -/
def dotted (s : Bytes) : Option (List Nat) := (s.splitOn 46).mapM wholeNumber

/-- One to four numbers in the ranges of `str2ip`. -/
def InRange : List Nat → Prop
  | [a] => a < 2 ^ 32 ∧ 1 ≤ a / 2 ^ 24 ∧ a / 2 ^ 24 ≤ 223
  | [a, b] => 1 ≤ a ∧ a ≤ 223 ∧ b < 2 ^ 24
  | [a, b, c] => 1 ≤ a ∧ a ≤ 223 ∧ b ≤ 255 ∧ c < 2 ^ 16
  | [a, b, c, d] => 1 ≤ a ∧ a ≤ 223 ∧ b ≤ 255 ∧ c ≤ 255 ∧ d ≤ 255
  | _ => False

/-- `inet_aton`: the address in network byte order, nothing when the text is no address. The last number fills the
bytes that the others leave. -/
def inetAton (s : Bytes) : Option Nat :=
  match dotted s with
  | some [a] => if a < 2 ^ 32 then some (htonl a) else none
  | some [a, b] => if a < 2 ^ 8 ∧ b < 2 ^ 24 then some (htonl (a * 2 ^ 24 + b)) else none
  | some [a, b, c] =>
    if a < 2 ^ 8 ∧ b < 2 ^ 8 ∧ c < 2 ^ 16 then some (htonl (a * 2 ^ 24 + b * 2 ^ 16 + c)) else none
  | some [a, b, c, d] =>
    if a < 2 ^ 8 ∧ b < 2 ^ 8 ∧ c < 2 ^ 8 ∧ d < 2 ^ 8 then
      some (htonl (a * 2 ^ 24 + b * 2 ^ 16 + c * 2 ^ 8 + d))
    else none
  | _ => none

/-- A text is taken for an address only when the whole of it is one, and then for the right one. -/
def ParsesExactly (s : Bytes) : Prop :=
  str2ip s ≠ inaddrNone → ∃ vs, dotted s = some vs ∧ InRange vs ∧ inetAton s = some (str2ip s)

/-- An address that `str2ip` can return is read back from its text. -/
def ReadsBack (x : UInt32) : Prop :=
  1 ≤ x.toNat % 256 ∧ x.toNat % 256 ≤ 223 → str2ip (ip2str x.toNat) = x.toNat

/-! ## When it is met -/

/-- The numbers at the start of a text with dots between them, `n` at most, and what follows. -/
def leadingNumbers : Nat → Bytes → List Nat × Bytes
  | 0, s => ([], s)
  | n + 1, s =>
    if !startsDigit s then ([], s)
    else
      let rest := s.drop (numeral s).length
      if n ≠ 0 ∧ rest.head? = some 46 ∧ startsDigit rest.tail then
        let more := leadingNumbers n rest.tail
        (readNumber s :: more.1, more.2)
      else ([readNumber s], rest)

/-- A number modulo 2^32, as it is compared. -/
def seen (v : Nat) : Nat := min v ulongMax % 2 ^ 32

/-- The numbers pass the checks that are made. -/
def PassesChecks : List Nat → Prop
  | [a] => 1 ≤ seen a / 2 ^ 24 ∧ seen a / 2 ^ 24 < 224
  | [a, b] => (1 ≤ seen a ∧ seen a < 224) ∧ seen b < 2 ^ 24
  | [a, b, c] => (1 ≤ seen a ∧ seen a < 224) ∧ seen b < 256 ∧ seen c < 2 ^ 16
  | [a, b, _, d] => (1 ≤ seen a ∧ seen a < 224) ∧ seen b < 256 ∧ seen d < 256
  | _ => False

instance : DecidablePred PassesChecks
  | [] => .isFalse id
  | [_] => inferInstanceAs (Decidable (_ ∧ _))
  | [_, _] => inferInstanceAs (Decidable (_ ∧ _))
  | [_, _, _] => inferInstanceAs (Decidable (_ ∧ _))
  | [_, _, _, _] => inferInstanceAs (Decidable (_ ∧ _))
  | _ :: _ :: _ :: _ :: _ :: _ => .isFalse id

/-- What is read of a text is not turned down: fewer than four numbers are not followed by a dot, and the checks pass. -/
def Accepted (r : List Nat × Bytes) : Prop := (r.1.length < 4 → r.2.head? ≠ some 46) ∧ PassesChecks r.1

instance (r : List Nat × Bytes) : Decidable (Accepted r) := inferInstanceAs (Decidable (_ ∧ _))

/-- What is read of a text is an address: no number is 2^32 or more, the third of four is at most 255, and nothing
follows. -/
def ReadWhole (r : List Nat × Bytes) : Prop :=
  (∀ v ∈ r.1, v < 2 ^ 32) ∧ (r.1.length = 4 → ∀ c ∈ r.1[2]?, c ≤ 255) ∧ r.2 = []

end VfsOss
