import VfsOss.Sm.Http
import VfsOss.CLib.Run

/-!
# The receiving process as a machine

The two plugins run in threads of their own; a step of the machine is one call into `sm_client` or one
round of the loop of `check_fin_task`, and steps interleave in any order.
-/

namespace VfsOss

open CLib

/-- The steps. `began` only enters the history: a host starts an upload of a file. -/
inductive SmAct where
  | accept (fd ip : Nat) (mem : Nat → UInt8)
  | recv (fd : Nat) (chunk : Bytes) (io : RecvIo)
  | send (fd n : Nat)
  | close (fd : Nat)
  | finBegin
  | finIter (io : MergeIo)
  | began (hostname filename : Bytes)

/-- One step. -/
def smStep (cfg : Cfg) (s : Sm) : SmAct → Sm
  | .accept fd ip mem => acceptNew cfg mem fd ip s
  | .recv fd chunk io => (doRecv Mybuff.data cfg io fd chunk s).2
  | .send fd n => (doSend fd n s).2
  | .close fd => doClose fd s
  | .finBegin => finBegin s
  | .finIter io => finIter cfg io s
  | .began hostname filename => s.note (.began hostname filename)

/-- The record a step takes from `TASK_FIN` and processes. -/
def processed (s : Sm) : SmAct → Option Tasklist
  | .finIter _ =>
    match s.once with
    | none => none
    | some k =>
      if k < 128 then (s.store.vfstask .fin).head?.map Tasklist.taken else none
  | _ => none

/-- A new connection on which the header of a block of `len` bytes arrives with the first bytes of
the block. -/
def SmAct.post (fd : Nat) (hostname filename : Bytes) (idx count : Int) (len : Nat) (body : Bytes) :
    List SmAct :=
  [.accept fd 0 fun _ => 0,
    .recv fd (UcClient.createHeader
      { TaskBase.zero with hostname := hostname, filename := filename, fsize := len }
      { TaskSub.zero with idx := idx, count := count, end_ := len - 1 } ++ body) .ok]

end VfsOss
