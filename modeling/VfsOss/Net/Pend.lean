import Mathlib.Logic.Function.Basic
import VfsOss.CLib.Run
import VfsOss.Net.Send

/-!
# Deferred connections

The part of `vfs_so.c` that puts off sending and receiving when a rate is limited: a connection whose
turn is put off is linked into a pending list, which `scan_pend_list` works off. What the calls of the
kernel and the plugin return is up to each step.
-/

namespace VfsOss

/-- What is put off: `send_pend_list` with `send_list` and `tmp_send_list`, or the same for receiving. -/
inductive Dir where
  | send | recv
  deriving DecidableEq

/-- `struct conn` of one descriptor. `incarnation` counts how often the descriptor has been set up, and
`pendFrom` is the incarnation in which it was last put into a list; both are histories. -/
structure PendConn where
  fd : Int
  incarnation : Nat
  pendFrom : Dir → Nat

/-- The descriptor belongs to a connection. -/
def PendConn.IsOpen (c : PendConn) : Prop := 0 < c.incarnation ∧ 0 ≤ c.fd

instance (c : PendConn) : Decidable c.IsOpen := inferInstanceAs (Decidable (_ ∧ _))

/-- A call of `do_send` or `do_recv` that a deferral has led to: for which connection the deferral was
recorded, and which one it ran on. -/
structure Ran where
  fd : Nat
  dir : Dir
  deferred : Nat
  incarnation : Nat
  deriving DecidableEq

/-- The state of a signalling thread: the slots, the lists, and the list that `scan_pend_list` goes
through, when it is running. `ran` is a history. -/
structure Pend where
  acon : Nat → PendConn
  pendList : Dir → List Nat
  tmpList : Dir → List Nat
  scan : Option Dir
  ran : List Ran

/-- The start: `init_fdinfo` fills `acon` with zeros. -/
def Pend.init : Pend where
  acon _ := ⟨0, 0, fun _ => 0⟩
  pendList _ := []
  tmpList _ := []
  scan := none
  ran := []

/-- The slot of a descriptor replaced. -/
def Pend.setConn (s : Pend) (fd : Nat) (c : PendConn) : Pend :=
  { s with acon := Function.update s.acon fd c }

/-- What happens in a call of `do_send`: the turn is put off, or the sockets take data with the result
`ret`, and `svc_send` is asked when nothing is left. -/
structure SendCall where
  pends : Bool
  ret : SendRet
  svcSend : SendRet

/-- What `svc_recv` returns. -/
inductive SvcRet where
  | send | addEpollin | addEpollout | addEpollall | close
  deriving DecidableEq

/-- What happens in a call of `do_recv`: the turn is put off, the connection `ends` or fails, or
`svc_recv` is called. -/
structure RecvCall where
  pends : Bool
  ends : Bool
  svcRecv : SvcRet
  send : SendCall

/-- `accept_new` for one connection, for which `svc_initconn` succeeds or not, and `add_fd_2_efd`. The
kernel gives out a descriptor that is not in use. -/
def Pend.acceptNew (maxfds fd : Nat) (initconn : Bool) (s : Pend) : Pend :=
  let c := s.acon fd
  if c.IsOpen ∨ fd ≥ maxfds ∨ ¬ initconn then s
  else s.setConn fd { c with fd := fd, incarnation := c.incarnation + 1 }

/-- `do_close`. -/
def Pend.doClose (maxfds : Nat) (fd : Int) (s : Pend) : Pend :=
  if 0 ≤ fd ∧ fd < maxfds then
    let c := s.acon fd.toNat
    if c.fd < 0 then s else s.setConn fd.toNat { c with fd := -1 }
  else s

/-- `add_to_pend`, to the temporary list or the other one. A slot is in at most one of the two. -/
def Pend.addToPend (d : Dir) (tmp : Bool) (fd : Nat) (s : Pend) : Pend :=
  let c := s.acon fd
  let pendList := (s.pendList d).erase fd
  let tmpList := (s.tmpList d).erase fd
  { s.setConn fd { c with pendFrom := Function.update c.pendFrom d c.incarnation } with
    pendList := Function.update s.pendList d (if tmp then pendList else pendList ++ [fd])
    tmpList := Function.update s.tmpList d (if tmp then tmpList ++ [fd] else tmpList) }

/-- `do_send`. -/
def Pend.doSend (maxfds : Nat) (fd : Int) (flag : Bool) (call : SendCall) (s : Pend) : Pend :=
  if fd < 0 then s
  else if (s.acon fd.toNat).fd < 0 then s
  else if call.pends then s.addToPend .send flag fd.toNat
  else
    match call.ret with
    | .close => s.doClose maxfds fd
    | .addEpollin => if call.svcSend = .close then s.doClose maxfds fd else s
    | .addEpollout => s

/-- `do_recv`. -/
def Pend.doRecv (maxfds : Nat) (fd : Int) (flag : Bool) (call : RecvCall) (s : Pend) : Pend :=
  if fd < 0 then s
  else if (s.acon fd.toNat).fd < 0 then s
  else if call.pends then s.addToPend .recv flag fd.toNat
  else if call.ends then s.doClose maxfds fd
  else
    match call.svcRecv with
    | .send => s.doSend maxfds fd false call.send
    | .close => s.doClose maxfds fd
    | _ => s

/-- `scan_pend_list` comes to a list: what is in the temporary one is moved behind it. -/
def Pend.startScan (d : Dir) (s : Pend) : Pend :=
  { s with
    pendList := Function.update s.pendList d (s.pendList d ++ s.tmpList d)
    tmpList := Function.update s.tmpList d []
    scan := some d }

/-- The first slot of a list is unlinked, and its turn noted if there is a connection. -/
def Pend.unlink (d : Dir) (fd : Nat) (rest : List Nat) (s : Pend) : Pend :=
  let c := s.acon fd
  { s with
    pendList := Function.update s.pendList d rest
    ran := if c.fd < 0 then s.ran else s.ran ++ [⟨fd, d, c.pendFrom d, c.incarnation⟩] }

/-- A round of `scan_pend_list`: the next slot of the list, or the next list. -/
def Pend.scanNext (maxfds : Nat) (call : RecvCall) (s : Pend) : Pend :=
  match s.scan with
  | none => s
  | some .send =>
    match s.pendList .send with
    | [] => s.startScan .recv
    | fd :: rest => (s.unlink .send fd rest).doSend maxfds (s.acon fd).fd true call.send
  | some .recv =>
    match s.pendList .recv with
    | [] => { s with scan := none }
    | fd :: rest => (s.unlink .recv fd rest).doRecv maxfds (s.acon fd).fd true call

/-- The steps. An event with both bits is a `readable` and a `writable` one. -/
inductive PendAct where
  | accept (fd : Nat) (initconn : Bool)
  | error (fd : Nat)
  | readable (fd : Nat) (call : RecvCall)
  | writable (fd : Nat) (call : SendCall)
  | timeout (fd : Nat)
  | scanBegin
  | scanNext (call : RecvCall)

/-- One step. The thread does nothing else while `scan_pend_list` runs, and `epoll` and the plugin only
know descriptors that have been set up. -/
def pendStep (maxfds : Nat) (s : Pend) : PendAct → Pend
  | .accept fd initconn => if s.scan = none then s.acceptNew maxfds fd initconn else s
  | .error fd => if s.scan = none ∧ 0 < (s.acon fd).incarnation then s.doClose maxfds fd else s
  | .readable fd call =>
    if s.scan = none ∧ 0 < (s.acon fd).incarnation then s.doRecv maxfds fd false call else s
  | .writable fd call =>
    if s.scan = none ∧ 0 < (s.acon fd).incarnation then s.doSend maxfds fd false call else s
  | .timeout fd => if s.scan = none ∧ 0 < (s.acon fd).incarnation then s.doClose maxfds fd else s
  | .scanBegin => if s.scan = none then s.startScan .send else s
  | .scanNext call => s.scanNext maxfds call

/-- The slot is in a pending list. -/
def Pend.Linked (s : Pend) (d : Dir) (fd : Nat) : Prop := fd ∈ s.pendList d ∨ fd ∈ s.tmpList d

/-- Every slot in a pending list is an open connection that was put off in its current incarnation. -/
def Pend.Live (s : Pend) : Prop :=
  ∀ d fd, s.Linked d fd → (s.acon fd).IsOpen ∧ (s.acon fd).pendFrom d = (s.acon fd).incarnation

/-- What is expected of a step: the pending lists are live, and every deferral has run on the connection
for which it was recorded. -/
def StepLive (maxfds : Nat) (s : Pend) (a : PendAct) : Prop :=
  (pendStep maxfds s a).Live ∧ ∀ r ∈ (pendStep maxfds s a).ran, r.deferred = r.incarnation

/-! ## Closing -/

/-- A call of `do_send` that closes an open connection. -/
def SendCall.closes (call : SendCall) : Bool :=
  ¬ call.pends && (call.ret = .close || call.ret = .addEpollin && call.svcSend = .close)

/-- A call of `do_recv` that closes an open connection. -/
def RecvCall.closes (call : RecvCall) : Bool :=
  ¬ call.pends && (call.ends || call.svcRecv = .close || call.svcRecv = .send && call.send.closes)

/-- An open connection is closed by a step that finds it linked in a pending list. In a round of
`scan_pend_list` the link that the round takes does not count. -/
def ClosesLinked (s : Pend) : PendAct → Prop
  | .error fd | .timeout fd => s.scan = none ∧ (s.acon fd).IsOpen ∧ ∃ d, s.Linked d fd
  | .readable fd call => s.scan = none ∧ (s.acon fd).IsOpen ∧ call.closes ∧ ∃ d, s.Linked d fd
  | .writable fd call => s.scan = none ∧ (s.acon fd).IsOpen ∧ call.closes ∧ ∃ d, s.Linked d fd
  | .scanNext call => ∃ dir fd rest, s.scan = some dir ∧ s.pendList dir = fd :: rest ∧
      (s.acon fd).IsOpen ∧ (match dir with | .send => call.send.closes | .recv => call.closes) ∧
      ∃ d, (s.unlink dir fd rest).Linked d fd
  | .accept .. | .scanBegin => False

/-- The condition on a step: no connection is closed while it is linked. -/
def StepUnlinked (s : Pend) (a : PendAct) : Prop := ¬ ClosesLinked s a

end VfsOss
