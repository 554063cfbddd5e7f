import VfsOss.CLib.Text

/-!
# Connection buffers

The data part of `mybuff.c`. A buffer is a block of memory of which the first `len` bytes are live;
what lies behind them is whatever the block held before. Memory that `malloc` and `realloc` hand out
is not cleared: `mem` tells what it holds.
-/

namespace VfsOss

open CLib

/-- `struct mybuff`, its data part. An empty block stands for the null pointer. -/
structure Mybuff where
  data : Bytes
  len : Nat
  le : len ≤ data.length

/-- `mybuff_init`. -/
def mybuffInit : Mybuff := ⟨[], 0, Nat.le_refl _⟩

/-- A block of `n` bytes from `malloc`. -/
def freshMem (mem : Nat → UInt8) (n : Nat) : Bytes := (List.range n).map mem

/-- The bytes received and not yet consumed. -/
def Mybuff.live (b : Mybuff) : Bytes := b.data.take b.len

/-- `mybuff_setdata`: the bytes are copied behind the live ones; the block grows to just hold them
and one byte more when there is not that much room. -/
def mybuffSetdata (initBuffSize : Nat) (mem : Nat → UInt8) (b : Mybuff) (d : Bytes) : Mybuff :=
  let block := if b.data = [] then freshMem mem initBuffSize else b.data
  let grown := if block.length - b.len > d.length then block
    else block ++ freshMem mem (b.len + d.length + 1 - block.length)
  { data := (b.live ++ d) ++ grown.drop (b.len + d.length)
    len := b.len + d.length
    le := by
      have := b.le
      simp only [Mybuff.live, List.length_append, List.length_take]
      omega }

/-- `mybuff_getdata`: the block and the number of live bytes, when there are any. -/
def mybuffGetdata (b : Mybuff) : Option (Bytes × Nat) :=
  if b.data ≠ [] ∧ b.len > 0 then some (b.data, b.len) else none

/-- `mybuff_skipdata`: the live bytes after the first `n` are moved to the start of the block. -/
def mybuffSkipdata (b : Mybuff) (n : Nat) : Mybuff :=
  if b.data = [] then b
  else if n ≥ b.len then ⟨b.data, 0, Nat.zero_le _⟩
  else
    { data := b.live.drop n ++ b.data.drop (b.len - n)
      len := b.len - n
      le := by
        have := b.le
        simp only [Mybuff.live, List.length_append, List.length_drop, List.length_take]
        omega }

/-- `mybuff_reinit`: nothing is live any more; a block of more than twice the initial size is
replaced. -/
def mybuffReinit (initBuffSize : Nat) (mem : Nat → UInt8) (b : Mybuff) : Mybuff :=
  if b.data.length > 2 * initBuffSize then ⟨freshMem mem initBuffSize, 0, Nat.zero_le _⟩
  else ⟨b.data, 0, Nat.zero_le _⟩

/-- Bytes stored over the start of the block, as `parse_item` does with its NULs. -/
def Mybuff.store (b : Mybuff) (s : Bytes) : Mybuff where
  data := s ++ b.data.drop s.length
  len := b.len
  le := by
    have := b.le
    simp only [List.length_append, List.length_drop]
    omega

/-- Behind the live bytes the block is zero, so that what is searched for in the block is found in the live bytes
or not at all. -/
def Mybuff.Clear (b : Mybuff) : Prop := ∀ x ∈ b.data.drop b.len, x = 0

/-- A block that has not been used. -/
def Mybuff.Blank (b : Mybuff) : Prop := ∀ x ∈ b.data, x = 0

end VfsOss
