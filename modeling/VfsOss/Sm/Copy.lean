import VfsOss.Sm.Http

/-!
# Copying a block whose file changes

The inner loop of `do_merge_file` when other uploads can truncate or extend the block's file meanwhile:
what `fstat` has reported and what `read` returns need not agree. `copyLoop` is this loop for a file that
does not change.
-/

namespace VfsOss

/-- What the calls of the loop return: `fstat`, and `read` and `write` in the `k`-th round. -/
structure CopyIo where
  size : Nat
  read : Nat → Int
  write : Nat → Int

/-- A round `k` that starts with `retlen` bytes to go, as a `size_t`: how many are left behind it. Nothing
stands for the end of the loop. -/
def copyRound (io : CopyIo) (k : Nat) (retlen : Int) : Option Int :=
  if retlen > 0 then
    let len := io.read k
    if len < 0 then none
    else if io.write k ≠ len then none
    else some ((retlen - len) % 2 ^ 64)
  else none

/-- The loop, after `k` rounds. -/
def copyRounds (io : CopyIo) : Nat → Option Int
  | 0 => some (io.size % 2 ^ 64)
  | k + 1 => (copyRounds io k).bind (copyRound io k)

/-- The loop ends. -/
def CopyEnds (io : CopyIo) : Prop := ∃ k, copyRounds io k = none

/-- The bytes the first `k` rounds have read. -/
def CopyIo.copied (io : CopyIo) : Nat → Int
  | 0 => 0
  | k + 1 => io.copied k + io.read k

/-- In some round `read` fails, or `write` does not take what has been read, or all the bytes `fstat` has
reported have been read, no more and no less (but for multiples of `2 ^ 64`). -/
def ReadsAddUp (io : CopyIo) : Prop :=
  ∃ k, io.read k < 0 ∨ io.write k ≠ io.read k ∨ (io.size - io.copied k) % 2 ^ 64 = 0

end VfsOss
