import Mathlib.Data.List.Count
import Mathlib.Logic.Function.Basic
import VfsOss.Net.MybuffMem

/-!
# The files of the buffers

Every `struct mybuff` of the program and the calls that hand a file to one or may close it: the two
buffers of each of the `maxfds` slots of `acon`, those of the agent's `defconn`, and its `databuff`.
`init_fdinfo` runs `mybuff_init` on the buffers of `acon`, `agent_log_init` on `databuff`; `defconn` is
a global variable that nothing initialises.
-/

namespace VfsOss

open CLib

/-- The buffers of the program. -/
inductive BuffId (maxfds : Nat) where
  | send (i : Fin maxfds)
  | recv (i : Fin maxfds)
  | defSend | defRecv
  | databuff
  deriving DecidableEq

/-- What happens to the descriptors of buffers. -/
inductive FdEvent (maxfds : Nat) where
  | handed (x : BuffId maxfds) (fd : Int)
  | closed (x : BuffId maxfds) (fd : Int)
  | reinited (x : BuffId maxfds)
  deriving DecidableEq

/-- The buffers, and what happened to their descriptors, the latest first. -/
structure Buffs (maxfds : Nat) where
  bufs : BuffId maxfds → MemBuff
  hist : List (FdEvent maxfds)

namespace Buffs

variable {maxfds : Nat}

/-- After `init_fdinfo`. -/
def start (maxfds : Nat) : Buffs maxfds where
  bufs
    | .send _ => MemBuff.init
    | .recv _ => MemBuff.init
    | .defSend => MemBuff.zeroed
    | .defRecv => MemBuff.zeroed
    | .databuff => MemBuff.zeroed
  hist := []

/-- A buffer after a call that closed descriptors. -/
def closing (s : Buffs maxfds) (x : BuffId maxfds) (r : MemBuff × List Int) : Buffs maxfds where
  bufs := Function.update s.bufs x r.1
  hist := (r.2.map (.closed x)).reverse ++ s.hist

/-- `mybuff_setfile` on a buffer: what it held is closed, the new file is handed to it. -/
def setfile (s : Buffs maxfds) (x : BuffId maxfds) (fd offset : Int) (len : Nat) : Buffs maxfds :=
  let s := s.closing x ((s.bufs x).setfile fd offset len)
  { s with hist := .handed x fd :: s.hist }

/-- `mybuff_skipfile` on a buffer. -/
def skipfile (s : Buffs maxfds) (x : BuffId maxfds) (len : Nat) : Buffs maxfds :=
  s.closing x ((s.bufs x).skipfile len)

/-- `mybuff_reinit` on a buffer, as far as its file goes. -/
def reinit (s : Buffs maxfds) (x : BuffId maxfds) : Buffs maxfds :=
  let s := s.closing x (s.bufs x).dropFile
  { s with hist := .reinited x :: s.hist }

end Buffs

/-- What the threads of the program do with the buffers. The functions on the data of a buffer leave
its file alone: `data` stands for all of them. -/
inductive BuffAct (maxfds : Nat) where
  /-- `add_fd_2_efd`: a connection gets its slot. -/
  | addFd (fd : Fin maxfds)
  /-- `set_client_fd`. -/
  | setClientFd (fd : Fin maxfds) (localfd offset : Int) (len : Nat)
  /-- The end of `do_send`: `sendfile64` has sent `n` bytes of what `mybuff_getfile` found. -/
  | sendFile (fd : Fin maxfds) (n : Nat)
  /-- `agent_log_init`. -/
  | agentLogInit
  /-- The agent enters `do_run`. -/
  | doRun
  | data (x : BuffId maxfds) (block : Option Bytes) (size len : Nat)

/-- One step. -/
def Buffs.step {maxfds : Nat} (s : Buffs maxfds) : BuffAct maxfds → Buffs maxfds
  | .addFd fd => (s.reinit (.send fd)).reinit (.recv fd)
  | .setClientFd fd localfd offset len => s.setfile (.send fd) localfd offset len
  | .sendFile fd n =>
    if (s.bufs (.send fd)).getfile.isSome then s.skipfile (.send fd) n else s
  | .agentLogInit => { s with bufs := Function.update s.bufs .databuff MemBuff.init }
  | .doRun => (s.reinit .defSend).reinit .defRecv
  | .data x block size len =>
    let b := { s.bufs x with data := block, size := size, len := len }
    { s with bufs := Function.update s.bufs x b }

/-- The buffers after a number of steps. -/
def Buffs.run {maxfds : Nat} (s : Buffs maxfds) (acts : List (BuffAct maxfds)) : Buffs maxfds :=
  acts.foldl Buffs.step s

/-- Buffers close only what they own: at any time a buffer has closed a descriptor at most as often as
it was handed to it, and by the time of a `mybuff_reinit` just as often. -/
def OwnsFiles {maxfds : Nat} (hist : List (FdEvent maxfds)) : Prop :=
  ∀ (x : BuffId maxfds) (fd : Int),
    (∀ h, h <:+ hist → h.count (.closed x fd) ≤ h.count (.handed x fd)) ∧
    (0 ≤ fd → ∀ h, .reinited x :: h <:+ hist → h.count (.closed x fd) = h.count (.handed x fd))

end VfsOss
