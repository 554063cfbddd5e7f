import VfsOss.Net.Mybuff
import VfsOss.CLib.Run

/-!
# What has been received reaches the plugin

The loop of `do_recv`, one result of `recv` at a time, and `svc_recv` behind it. A read that fills the I/O buffer is
followed by another one; the ends of the loop are a shorter read, the end of the stream and an error.
-/

namespace VfsOss

open CLib

/-- A result of `recv` into the I/O buffer. -/
inductive RecvRes (initBuffSize : Nat)
  | bytes (d : Bytes) (pos : d ≠ []) (le : d.length ≤ initBuffSize)
  | eof
  | eintr
  | eagain
  | error

/-- What `svc_recv` does with the receive buffer, and whether its result makes `do_recv` close the connection. A plugin
consumes bytes and may write over those it keeps; it adds none. -/
structure SvcRecv where
  answer : Mybuff → Bool × Mybuff
  le : ∀ b, (answer b).2.len ≤ b.len

/-- The receiving side of a connection. `inCall` says that `do_recv` is in its loop. The last four fields are not in
the program: the bytes `recv` has returned, how many of them had been when `svc_recv` was called last, how many have
been consumed, and the live bytes at each call of `svc_recv`, with the number of those consumed before. -/
structure RecvConn where
  isOpen : Bool
  inCall : Bool
  buff : Mybuff
  received : Bytes
  offered : Nat
  consumed : Nat
  calls : List (Nat × Bytes)

/-- `add_fd_2_efd`: nothing has been received. -/
def RecvConn.start (buff : Mybuff) (_ : buff.live = []) : RecvConn := ⟨true, false, buff, [], 0, 0, []⟩

/-- `do_close`. -/
def RecvConn.doClose (c : RecvConn) : RecvConn := { c with isOpen := false, inCall := false }

/-- `svc_recv` called behind the loop, and the connection closed if it asks for it. -/
def RecvConn.svcRecv (svc : SvcRecv) (c : RecvConn) : RecvConn :=
  let r := svc.answer c.buff
  let c := { c with
    inCall := false
    buff := r.2
    offered := c.received.length
    consumed := c.consumed + (c.buff.len - r.2.len)
    calls := c.calls ++ [(c.consumed, c.buff.live)] }
  if r.1 then c.doClose else c

/-- A round of the loop of `do_recv`, which is entered if it has not been; or a `do_close` from elsewhere, which does
not come while `do_recv` is in its loop. -/
inductive RecvAct (initBuffSize : Nat)
  | recv (r : RecvRes initBuffSize) (svc : SvcRecv)
  | close

/-- One round of the loop. -/
def RecvConn.round {initBuffSize : Nat} (mem : Nat → UInt8) (svc : SvcRecv) (c : RecvConn) :
    RecvRes initBuffSize → RecvConn
  | .bytes d _ _ =>
    let c := { c with buff := mybuffSetdata initBuffSize mem c.buff d, received := c.received ++ d }
    if d.length = initBuffSize then { c with inCall := true } else c.svcRecv svc
  | .eof => c.doClose
  | .eintr => { c with inCall := true }
  | .eagain => c.svcRecv svc
  | .error => c.doClose

/-- One step of a connection. -/
def recvStep {initBuffSize : Nat} (mem : Nat → UInt8) (c : RecvConn) : RecvAct initBuffSize → RecvConn
  | .recv r svc => if c.isOpen then c.round mem svc r else c
  | .close => if c.inCall then c else c.doClose

/-! ## What is expected of it -/

/-- The byte that was received as number `i` has been in the buffer during a call of `svc_recv`. -/
def RecvConn.Offered (c : RecvConn) (i : Nat) : Prop :=
  ∃ call ∈ c.calls, call.1 ≤ i ∧ i < call.1 + call.2.length ∧ call.2[i - call.1]? = c.received[i]?

/-- A step that closes the connection drops no byte that has been received. -/
def DropsNothing {initBuffSize : Nat} (mem : Nat → UInt8) (c : RecvConn) (a : RecvAct initBuffSize) : Prop :=
  c.isOpen = true → (recvStep mem c a).isOpen = false →
    ∀ i < (recvStep mem c a).received.length, (recvStep mem c a).Offered i

/-- The end of the stream or an error comes right behind reads that have filled the I/O buffer. -/
def EndsBehindFullRead {initBuffSize : Nat} (c : RecvConn) (a : RecvAct initBuffSize) : Prop :=
  c.isOpen = true ∧ c.offered < c.received.length ∧ ∃ svc, a = .recv .eof svc ∨ a = .recv .error svc

end VfsOss
