import Mathlib.Tactic.Common
import Mathlib.Data.List.Basic

/-!
# C strings

Byte strings and the functions of `<string.h>` and `<stdio.h>` that cut, search and truncate them.
A memory block is a list of bytes; the C string at its start ends before the first NUL.
-/

namespace CLib

/-- A block of memory, or the bytes of a text. -/
abbrev Bytes := List UInt8

/-- The bytes of a string literal, without the terminating NUL. -/
def txt (s : String) : Bytes := s.toList.map fun c => UInt8.ofNat c.toNat

/-- The C string at the start of a memory block: the bytes before the first NUL. -/
def cstr (mem : Bytes) : Bytes := mem.takeWhile (· ≠ 0)

/-- The two bytes that end a line. -/
def crlf : Bytes := [13, 10]

/-- `snprintf(buf, size, "%s", s)`: what `buf` holds afterwards, without the terminating NUL. -/
def snprintf (size : Nat) (s : Bytes) : Bytes := s.take (size - 1)

/-- What `fgets` leaves in a buffer of `size` bytes: the first line, with its end, as far as it fits. -/
def fgets (size : Nat) (s : Bytes) : Bytes :=
  let line := s.takeWhile (· ≠ 10)
  (if line.length < s.length then line ++ [10] else line).take (size - 1)

section Search

variable {α : Type} [DecidableEq α]

/-- `strstr(hay, needle)` as an offset into `hay`: where `needle` occurs first. -/
def strstr : List α → List α → Option Nat
  | [], needle => if needle = [] then some 0 else none
  | c :: hay, needle =>
    if needle <+: c :: hay then some 0 else (strstr hay needle).map (· + 1)

/-- `strchr(s, c)` as an offset into `s`. -/
def strchr : List α → α → Option Nat
  | [], _ => none
  | d :: s, c => if d = c then some 0 else (strchr s c).map (· + 1)

end Search

end CLib
