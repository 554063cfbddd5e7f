import VfsOss.CLib.Run
import VfsOss.Net.Pend

/-!
# What is left to send is sent

`epoll_add` and `epoll_mod` ask for `EPOLLET`: a connection that has not sent all of its buffer is sure to be served
again only if `EPOLLOUT` has been asked for since its event came last, or if its turn has been put off. Here a
connection is followed with what it waits for, while its plugin receives and speaks.
-/

namespace VfsOss

open CLib

/-- Whether the last `modify_fd_event` has asked for `EPOLLOUT`. The event is due until it has come; after that it may
come again, but need not. -/
inductive Epollout where
  | no | due | seen
  deriving DecidableEq

/-- What `do_send` asks for. -/
def SendRet.event : SendRet → Epollout
  | .addEpollout => .due
  | .addEpollin => .no
  | .close => .no

/-- A connection and what leads to its next `do_send`: its `EPOLLOUT` event, and whether it is in `send_list` or
`tmp_send_list`. -/
structure OutConn where
  out : Sender
  epollout : Epollout
  deferred : Bool

namespace OutConn

/-- What is left to send. -/
def pending (c : OutConn) : Bytes := c.out.buf.pending

/-- `do_close`. -/
def doClose (c : OutConn) : OutConn := { c with out := { c.out with isOpen := false } }

/-- The `ret` that `do_send` comes to. -/
def sendRet (s : Sender) (io : SendIo) : SendRet :=
  let r := sendData io.send s
  if r.1 = .addEpollin then (sendFile io.sendfile r.2).1 else r.1

/-- `modify_fd_event`. -/
def modifyFdEvent (e : Epollout) (c : OutConn) : OutConn := { c with epollout := e }

/-- `do_send` with its `add_to_pend` and its `modify_fd_event`. -/
def doSend (io : SendIo) (c : OutConn) : OutConn :=
  if c.out.isOpen then
    if io.pend then { c with deferred := true }
    else { c with out := doSendBuff c.out io, epollout := (sendRet c.out io).event }
  else c

end OutConn

/-- What happens in a call of `do_recv`: the turn is put off; the peer has closed, or `recv` has failed; or the last
`recv` finds nothing more (`eagain`) or not, and `svc_recv` changes the send buffer and returns. `send` is for
the `do_send` that follows `RECV_SEND`. -/
structure OutRecv where
  pends : Bool
  ends : Bool
  eagain : Bool
  reply : SendBuff → SendBuff
  svcRecv : SvcRet
  send : SendIo

namespace OutConn

/-- The send buffer changed by the plugin. -/
def say (f : SendBuff → SendBuff) (c : OutConn) : OutConn := { c with out := { c.out with buf := f c.out.buf } }

/-- `do_recv`. -/
def doRecv (r : OutRecv) (c : OutConn) : OutConn :=
  if ¬ c.out.isOpen ∨ r.pends then c
  else if r.ends then c.doClose
  else
    let c := if r.eagain then c.modifyFdEvent .no else c
    let c := c.say r.reply
    match r.svcRecv with
    | .send => c.doSend r.send
    | .addEpollin => c.modifyFdEvent .no
    | .addEpollout => c.modifyFdEvent .due
    | .addEpollall => c.modifyFdEvent .due
    | .close => c.doClose

/-- `do_process` for an event with `EPOLLOUT`, and with `EPOLLIN` if `do_recv` is called. It only comes when it has been
asked for. -/
def writable (r : Option OutRecv) (io : SendIo) (c : OutConn) : OutConn :=
  if c.epollout = .no then c
  else
    let c := { c with epollout := .seen }
    let c := match r with
      | some r => c.doRecv r
      | none => c
    c.doSend io

/-- `scan_pend_list` comes to the connection, if it is in the list. -/
def scan (io : SendIo) (c : OutConn) : OutConn :=
  if c.deferred then { c with deferred := false }.doSend io else c

end OutConn

/-- The steps of a connection: an event with `EPOLLIN` alone, or the turn of `do_recv` that was put off; an event with
`EPOLLOUT`; the turn of `do_send` that was put off; `active_send` of the plugin; and `do_close`. -/
inductive OutAct where
  | readable (r : OutRecv)
  | writable (r : Option OutRecv) (io : SendIo)
  | scan (io : SendIo)
  | activeSend (f : SendBuff → SendBuff)
  | close

/-- One step. -/
def outStep (c : OutConn) : OutAct → OutConn
  | .readable r => c.doRecv r
  | .writable r io => c.writable r io
  | .scan io => c.scan io
  | .activeSend f => if c.out.isOpen then (c.say f).modifyFdEvent .due else c
  | .close => c.doClose

/-- A connection after `add_fd_2_efd`, which leaves the slot in `send_list` if the connection before it has put off its
turn. -/
def OutConn.start (initBuffSize : Nat) (mem : Nat → UInt8) (sendBuff : Mybuff) (deferred : Bool) : OutConn :=
  ⟨.start ⟨mybuffReinit initBuffSize mem sendBuff, none⟩, .no, deferred⟩

/-! ## What is expected -/

/-- A turn of `do_send` that is not put off, in which the socket takes something. -/
structure SendIo.Takes (io : SendIo) : Prop where
  pend : io.pend = false
  send : ∃ k rs, io.send = .took k :: rs
  sendfile : ∃ k rs, io.sendfile = .took k :: rs
  svcClose : io.svcClose = false

/-- The next turn that the connection is sure to have, without anything more being received: from `scan_pend_list`, or
by the event that is due. -/
def OutConn.serve (c : OutConn) (io : SendIo) : OutConn :=
  if c.deferred then c.scan io
  else if c.epollout = .due then c.writable none io
  else c

/-- **Nothing is forgotten.** As many turns as there are bytes left send them all. -/
def OutConn.WillBeSent (c : OutConn) : Prop :=
  c.out.isOpen = true → ∀ ios : List SendIo, (∀ io ∈ ios, io.Takes) → c.pending.length ≤ ios.length →
    (run OutConn.serve c ios).out.sent = c.out.sent ++ c.pending ∧ (run OutConn.serve c ios).pending = []

/-- The step forgets what is left to send: without an `EPOLLOUT` event `do_recv` is called, and `svc_recv` returns
`RECV_ADD_EPOLLIN` over a buffer that is not empty, of a connection whose turn has not been put off. -/
def OutConn.Forgets (c : OutConn) : OutAct → Prop
  | .readable r => c.out.isOpen = true ∧ r.pends = false ∧ r.ends = false ∧ r.svcRecv = .addEpollin ∧
      c.deferred = false ∧ (r.reply c.out.buf).pending ≠ []
  | _ => False

end VfsOss
