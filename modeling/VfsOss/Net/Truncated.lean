import VfsOss.Net.Send

/-!
# A file that has become shorter

`do_send` with the value of `errno`, one system call at a time. At the end of the file `sendfile64` returns 0 and leaves
`errno` alone, but the branches behind it test `errno`.
-/

namespace VfsOss

/-- The values of `errno` that `do_send` tells apart. -/
def eintr : Nat := 4

def eagain : Nat := 11

def enoent : Nat := 2

/-- Where a connection is: between two calls of `do_send`, in one of its two loops, behind them with nothing left to
send, or closed. -/
inductive SendPhase where
  | idle | data | file | served | closed
  deriving DecidableEq, Repr

/-- A connection with a send buffer: the number of bytes of data left, the segment of the file, and the value of
`errno` in the process. -/
structure FileSender where
  data : Nat
  foffset : Nat
  flen : Nat
  errno : Nat
  phase : SendPhase

/-- What the socket does with what it is offered: it takes bytes, or the call fails. -/
inductive SockAns where
  | took (n : Nat)
  | fail (errno : Nat)

/-- `do_send` is called, with what other calls have left in `errno`. -/
def FileSender.enter (errno : Nat) (c : FileSender) : FileSender :=
  { c with
    errno := errno
    phase := if c.data > 0 then .data else if c.flen > 0 then .file else .served }

/-- A round of the loop around `send`. -/
def FileSender.sendRound (c : FileSender) : SockAns → FileSender
  | .took k =>
    let n := accepted c.data k
    { c with
      data := c.data - n
      phase := if n < c.data then .idle else if c.flen > 0 then .file else .served }
  | .fail e => { c with errno := e, phase := if e = eintr then .data else if e = eagain then .idle else .closed }

/-- The branches behind a `sendfile64` that has not sent anything. -/
def FileSender.notSent (c : FileSender) : FileSender :=
  { c with
    phase :=
      if c.errno = eintr then .file
      else if c.errno = eagain ∨ c.errno = enoent then .idle
      else .closed }

/-- A round of the loop around `sendfile64`, with a file of `size` bytes. `mybuff_skipfile` closes the file when
nothing of the segment is left. -/
def FileSender.sendfileRound (size : Nat) (c : FileSender) (ans : SockAns) : FileSender :=
  let len1 := if c.flen > gsize then gsize else c.flen
  if size ≤ c.foffset then c.notSent
  else
    match ans with
    | .took k =>
      let n := accepted (min len1 (size - c.foffset)) k
      { c with
        foffset := if c.flen ≤ n then 0 else c.foffset + n
        flen := c.flen - n
        phase := if n < c.flen then .idle else .served }
    | .fail e => { c with errno := e }.notSent

/-- The next step of a connection, when the socket's answer is `ans` and `do_send` would be called with `errno`: a
connection that waits is called again, since its socket can be written to. -/
def fileSendStep (size errno : Nat) (ans : SockAns) (c : FileSender) : FileSender :=
  match c.phase with
  | .idle => c.enter errno
  | .data => c.sendRound ans
  | .file => c.sendfileRound size ans
  | .served | .closed => c

/-- One step of a connection, with the number of calls of `do_send` that have begun. `left k` is what `errno` is at the
start of the `k`-th of these calls. -/
def fileSendNext (size : Nat) (left : Nat → Nat) (ans : SockAns) (d : FileSender × Nat) : FileSender × Nat :=
  (fileSendStep size (left d.2) ans d.1, if d.1.phase = .idle then d.2 + 1 else d.2)

/-- A connection after `n` steps; `ans k` is the socket's answer in step `k`. -/
def fileSendRun (size : Nat) (left : Nat → Nat) (ans : Nat → SockAns) : Nat → FileSender × Nat → FileSender × Nat
  | 0, d => d
  | n + 1, d => fileSendNext size left (ans n) (fileSendRun size left ans n d)

/-! ## What is expected of it -/

/-- The connection is closed after finitely many steps, each of them one system call at most. -/
def TransferEnds (size : Nat) (left : Nat → Nat) (ans : Nat → SockAns) (d : FileSender × Nat) : Prop :=
  ∃ n, (fileSendRun size left ans n d).1.phase = .closed

/-- What `errno` is when `sendfile64` returns 0 first, and then at the start of each call of `do_send`. -/
def leftover (left : Nat → Nat) (d : FileSender × Nat) : Nat → Nat
  | 0 => d.1.errno
  | k + 1 => left (d.2 + k)

/-- `do_send` returns with these values of `errno`, to be called again. -/
def Retried (e : Nat) : Prop := e = eagain ∨ e = enoent

/-- At some call `errno` has a value that makes `do_send` close the connection, and at the calls before one that makes
it return: never the one that keeps it in its loop. -/
def ClosesAtLast (left : Nat → Nat) (d : FileSender × Nat) : Prop :=
  ∃ k, (leftover left d k ≠ eintr ∧ ¬ Retried (leftover left d k)) ∧ ∀ j < k, Retried (leftover left d j)

end VfsOss
